import Angerona.Mesh.Handshake

/-!
    Agreement between two ends.

    Every turn keeps the link in one of its phases, the numbers of the packets in each pipe in order,
    and what was opened a part of what was sealed. -/

namespace Angerona.Mesh
open Text Effect Transition

section Turns

variable {K : Pairing} {n : ℕ} {c c' c'' : Channel} {prefixes : Prefixes}

/-! ### Numbers of packets -/

/-- The epoch and the numbers of packets are as they were. -/
def Channel.Still (c c' : Channel) : Prop :=
  c'.endpoint.epoch = c.endpoint.epoch ∧ c'.endpoint.sequence = c.endpoint.sequence ∧
    c'.endpoint.received = c.endpoint.received

/-- The end is in the epoch of the frame, with all numbers of packets reset. -/
def Channel.Renewed (f : Control) (c' : Channel) : Prop :=
  c'.endpoint.epoch = f.body.epoch ∧ c'.endpoint.sequence = 0 ∧ c'.endpoint.received = fun _ => 0

/-- A frame that makes an end take new keys. -/
def Control.Turns (f : Control) : Prop :=
  f.isAck ∨ ∃ challenge parent child, f.body.data = .commit challenge parent child

/-- What a control frame does to the numbers of packets, and which acknowledgements it brings. -/
def Control.Moves (f : Control) (c : Channel) (frames : List Control) (c' : Channel) : Prop :=
  (c.Still c' ∧ ∀ g ∈ frames, ¬g.isAck) ∨
    f.Turns ∧ c'.Renewed f ∧ ∀ g ∈ frames, g.isAck → g.body.epoch = f.body.epoch

theorem Channel.Aside.still (h : c.Aside c') : c.Still c' := by
  obtain ⟨_, _, _, _, _, _, rfl⟩ := h
  exact ⟨rfl, rfl, rfl⟩

theorem Channel.Still.trans (h : c.Still c') (h' : c'.Still c'') : c.Still c'' :=
  ⟨h'.1.trans h.1, h'.2.1.trans h.2.1, h'.2.2.trans h.2.2⟩

theorem Control.Moves.of_still {f : Control} {frames : List Control} (h : c.Still c')
    (h' : f.Moves c' frames c'') : f.Moves c frames c'' :=
  h'.imp_left (And.imp_left h.trans)

theorem Control.Moves.idle {f : Control} (h : c.Still c') : f.Moves c [] c' :=
  .inl ⟨h, fun _ hg => absurd hg List.not_mem_nil⟩

theorem Control.Moves.one {f g : Control} (h : c.Still c' ∧ ¬g.isAck) : f.Moves c [g] c' :=
  .inl ⟨h.1, fun _ hg => List.mem_singleton.mp hg ▸ h.2⟩

/-- A frame that acknowledges nothing was signed. -/
theorem control_still {data : ControlData} {epoch : ℕ} {reading : Option ℤ} (h : c.Still c')
    (hdata : ∀ challenge, data ≠ .ack challenge) :
    wp (Channel.control epoch data reading) (fun frame c'' => c.Still c'' ∧ ¬frame.isAck)
      (fun _ => c.Still) c' :=
  wp_control (fun now => ⟨h.trans (c'.aside_signed now).still, fun ⟨challenge, hf⟩ => hdata challenge hf⟩)
    fun _ _ haside => h.trans haside.still

theorem begin_still (clock clock' : Option ℤ) :
    wp (Channel.begin prefixes n clock clock') (fun frame c' => c.Still c' ∧ ¬frame.isAck)
      (fun _ => c.Still) c := by
  simp only [Channel.begin, wp_bind, wp_read, wp_modify, onEndpoint, wp_zoom]
  refine wp_now (fun now _ _ => ?_) (fun _ => ⟨rfl, rfl, rfl⟩) fun _ => ⟨rfl, rfl, rfl⟩
  exact control_still ⟨rfl, rfl, rfl⟩ (by simp)

theorem react_moves (f : Control) (r : Reads) (now : ℤ) :
    wp (Channel.react prefixes n r now f.body) (f.Moves c) (fun _ => f.Moves c []) c := by
  have hstill : f.Moves c [] c := .idle ⟨rfl, rfl, rfl⟩
  have hpending : wp (Channel.acceptPending now f.body r.second) (f.Moves c) (fun _ => f.Moves c []) c := by
    simp only [Channel.acceptPending, wp_bind, wp_read]
    split
    · exact hstill
    rw [wp_bind, wp_check]
    refine ⟨fun hcond => ?_, fun _ => hstill⟩
    split
    · simp only [Channel.acceptReply, wp_bind, wp_read, wp_check, wp_modify, wp_pure]
      refine ⟨fun _ => ⟨fun _ => ?_, fun _ => hstill⟩, fun _ => hstill⟩
      exact wp_mono (control_still ⟨rfl, rfl, rfl⟩ (by simp)) (fun _ _ => .one) fun _ _ => .idle
    · rename_i hdata _ _
      simp only [Channel.acceptCommit, wp_bind, wp_read, wp_check, wp_lift, wp_modify, wp_pure]
      refine ⟨fun _ => ⟨fun cert _ => ⟨fun _ => ?_, fun _ => hstill⟩, fun _ _ => hstill⟩,
        fun _ => hstill⟩
      refine wp_control (fun now' => .inr ⟨.inr ⟨_, _, _, hdata⟩, ⟨hcond.1.symm, rfl, rfl⟩, ?_⟩) ?_
      · intro g hg _
        obtain rfl := List.mem_singleton.mp hg
        exact hcond.1.symm
      · intro _ c' haside
        obtain ⟨hepoch, hsequence, hreceived⟩ := haside.still
        exact .inr ⟨.inr ⟨_, _, _, hdata⟩, ⟨hepoch.trans hcond.1.symm, hsequence, hreceived⟩,
          fun _ hg => absurd hg List.not_mem_nil⟩
    · rename_i hdata _ _
      simp only [Channel.acceptAck, wp_bind, wp_check, wp_modify, wp_pure]
      refine ⟨fun _ => .inr ⟨.inl ⟨_, hdata⟩, ⟨hcond.1.symm, rfl, rfl⟩, ?_⟩, fun _ => hstill⟩
      exact fun _ hg => absurd hg List.not_mem_nil
    · exact hstill
  simp only [Channel.react, wp_bind, wp_read]
  split
  · simp only [wp_ite, wp_pure, wp_bind]
    refine ⟨fun _ => ⟨fun _ => hstill, fun _ => ?_⟩, fun _ => hpending⟩
    exact wp_mono (begin_still _ _) (fun _ _ => .one) fun _ _ => .idle
  · simp only [wp_ite]
    refine ⟨fun _ => ?_, fun _ => hpending⟩
    simp only [Channel.acceptProposal, wp_bind, wp_read, wp_check, wp_lift, wp_modify, wp_pure]
    refine ⟨fun cert _ => ⟨fun _ => ⟨fun _ => ?_, fun _ => hstill⟩, fun _ => hstill⟩, fun _ _ => hstill⟩
    exact wp_mono (control_still ⟨rfl, rfl, rfl⟩ (by simp)) (fun _ _ => .one) fun _ _ => .idle
  · exact hpending

/-- What `accept_control` does to the numbers of packets. -/
theorem accept_moves (f : Control) (r : Reads) :
    wp (Channel.acceptControl prefixes n r f) (f.Moves c) (fun _ => f.Moves c []) c := by
  refine wp_entered (fun _ _ haside => .idle haside.still) fun now _ => ?_
  simp only [wp_bind, wp_read, wp_check, wp_modify]
  have hread := (c.aside_now now).still
  refine ⟨fun _ => ⟨fun _ => ?_, fun _ => .idle hread⟩, fun _ => .idle hread⟩
  exact wp_mono (react_moves f r now) (fun _ _ => .of_still ⟨rfl, rfl, rfl⟩)
    fun _ _ => .of_still ⟨rfl, rfl, rfl⟩

/-- `control_frames` leaves the numbers of packets, and acknowledges nothing. -/
theorem frames_still (r : Reads) :
    wp (Channel.controlFrames prefixes n r) (fun frames c' => c.Still c' ∧ ∀ g ∈ frames, ¬g.isAck)
      (fun _ => c.Still) c := by
  have hstill : c.Still c := ⟨rfl, rfl, rfl⟩
  refine wp_entered (fun _ _ haside => haside.still) fun now _ => ?_
  simp only [wp_bind, wp_read, wp_check, wp_ite, wp_modify, wp_raise, Channel.renewal, wp_pure]
  refine ⟨fun _ => ⟨fun _ => ⟨rfl, rfl, rfl⟩, fun _ => ⟨fun _ => ?_, fun _ => ⟨fun _ => ?_, fun _ =>
    ⟨fun _ => ?_, fun _ => ?_⟩⟩⟩⟩, fun _ => ⟨rfl, rfl, rfl⟩⟩
  · exact ⟨hstill, fun _ hg => absurd hg List.not_mem_nil⟩
  · refine wp_mono (begin_still _ _) (fun g _ hg => ⟨hstill.trans hg.1, fun _ hmem => ?_⟩)
      fun _ _ hg => hstill.trans hg
    exact List.mem_singleton.mp hmem ▸ hg.2
  · exact ⟨hstill, fun _ hg => absurd hg List.not_mem_nil⟩
  · refine wp_mono (control_still (c := c) ⟨rfl, rfl, rfl⟩ (by simp)) (fun g _ hg => ⟨hg.1, fun _ hmem => ?_⟩)
      fun _ _ hg => hg
    exact List.mem_singleton.mp hmem ▸ hg.2

end Turns

/-! ### Streams -/

def Frame.packet? : Frame → Option Packet
  | .data p => some p
  | .control _ => none

def packets (l : List Frame) : List Packet := l.filterMap Frame.packet?

def payloads (l : List Frame) : List (List UInt8) := (packets l).map (·.ciphertext.payload)

/-- The packets on their way to an end are numbered in order, up to what its peer sent, and above
    what it received when both are in the same epoch. -/
structure Stream (same : Prop) (received sequence : ℕ) (l : List Frame) : Prop where
  increasing : (packets l).Pairwise fun p q => p.header.seq < q.header.seq
  sent : ∀ p ∈ packets l, p.header.seq ≤ sequence
  seen : same → received ≤ sequence ∧ ∀ p ∈ packets l, received < p.header.seq

section Streams

variable {same : Prop} {received sequence : ℕ} {l : List Frame} {p : Packet}

@[simp] theorem packets_nil : packets [] = [] := rfl

@[simp] theorem packets_data : packets (.data p :: l) = p :: packets l := rfl

@[simp] theorem packets_control {f : Control} : packets (.control f :: l) = packets l := rfl

@[simp] theorem packets_append {l' : List Frame} : packets (l ++ l') = packets l ++ packets l' :=
  List.filterMap_append

@[simp] theorem packets_controls (fs : List Control) : packets (fs.map .control) = [] := by
  induction fs with
  | nil => rfl
  | cons f fs ih => exact ih

theorem Stream.congr {l' : List Frame} (h : Stream same received sequence l)
    (hl : packets l' = packets l) : Stream same received sequence l' := by
  obtain ⟨hincreasing, hsent, hseen⟩ := h
  rw [← hl] at hincreasing hsent hseen
  exact ⟨hincreasing, hsent, hseen⟩

/-- The peer seals its next packet. -/
theorem Stream.push (h : Stream same received sequence l) (hp : p.header.seq = sequence + 1) :
    Stream same received (sequence + 1) (l ++ [.data p]) := by
  have hmem {q : Packet} (hq : q ∈ packets (l ++ [.data p])) : q ∈ packets l ∨ q = p := by
    simpa using hq
  refine ⟨?_, fun q hq => ?_, fun hsame => ⟨(h.seen hsame).1.trans (Nat.le_succ _), fun q hq => ?_⟩⟩
  · rw [packets_append, List.pairwise_append]
    refine ⟨h.increasing, List.pairwise_singleton _ _, fun q hq q' hq' => ?_⟩
    obtain rfl := List.mem_singleton.mp hq'
    exact hp ▸ Nat.lt_succ_of_le (h.sent q hq)
  · rcases hmem hq with hq | rfl
    · exact (h.sent q hq).trans (Nat.le_succ _)
    · exact hp.le
  · rcases hmem hq with hq | rfl
    · exact (h.seen hsame).2 q hq
    · exact hp ▸ Nat.lt_succ_of_le (h.seen hsame).1

/-- The end opens a packet. -/
theorem Stream.pop (h : Stream same received sequence (.data p :: l)) :
    Stream same p.header.seq sequence l := by
  obtain ⟨hfirst, hincreasing⟩ := List.pairwise_cons.mp h.increasing
  exact ⟨hincreasing, fun q hq => h.sent q (List.mem_cons_of_mem _ hq),
    fun _ => ⟨h.sent p List.mem_cons_self, hfirst⟩⟩

/-- The end refuses a packet. -/
theorem Stream.drop (h : Stream same received sequence (.data p :: l)) :
    Stream same received sequence l := by
  refine ⟨(List.pairwise_cons.mp h.increasing).2, fun q hq => h.sent q (List.mem_cons_of_mem _ hq),
    fun hsame => ⟨(h.seen hsame).1, fun q hq => (h.seen hsame).2 q (List.mem_cons_of_mem _ hq)⟩⟩

end Streams

/-! ### The invariant -/

/-- What holds of the numbers and the payloads of the packets. -/
structure Link.Numbered (K : Pairing) (w : Link) : Prop where
  acks : ∀ f ∈ w.put .child, f.isAck → f.body.epoch ≤ (w.channel .child).endpoint.epoch
  stream : ∀ s, Stream ((w.channel .child).endpoint.epoch = (w.channel .parent).endpoint.epoch)
    ((w.channel s).endpoint.received (K.peer s.other)) (w.channel s.other).endpoint.sequence
    (w.inbox s)
  unseen : (w.channel .child).endpoint.epoch ≠ (w.channel .parent).endpoint.epoch →
    (w.channel .child).endpoint.received (K.peer .parent) = 0
  log : ∀ s, (w.opened s ++ payloads (w.inbox s)).Sublist (w.sealed s.other)

/-- What holds of a link along every run. -/
structure Link.Sound (K : Pairing) (w : Link) : Prop extends w.Numbered K where
  phase : Phase K True (w.put .child) (w.refused .parent) w.drawn (w.channel .parent)
    (w.channel .child) (w.inbox .child) (w.inbox .parent)

section Runs

variable {K : Pairing} {w : Link} {prefixes : Prefixes}

theorem Link.Sound.placed (h : w.Sound K) (s : Side) : ∃ ε, K.Placed ε s (w.channel s) := by
  cases s with
  | parent => exact h.phase.atParent
  | child => exact h.phase.atChild

/-- The numbers depend on little of a link. -/
theorem Link.Numbered.same (h : w.Numbered K) {w' : Link}
    (hchannel : ∀ s, (w.channel s).Still (w'.channel s))
    (hinbox : ∀ s, packets (w'.inbox s) = packets (w.inbox s))
    (hput : ∀ f ∈ w'.put .child, f.isAck → f ∈ w.put .child)
    (hlogs : w'.opened = w.opened ∧ w'.sealed = w.sealed) : w'.Numbered K := by
  obtain ⟨hopened, hsealed⟩ := hlogs
  refine ⟨fun f hf hack => ?_, fun s => ?_, fun hne => ?_, fun s => ?_⟩
  · rw [(hchannel .child).1]
    exact h.acks f (hput f hf hack) hack
  · rw [(hchannel .child).1, (hchannel .parent).1, (hchannel s).2.2, (hchannel s.other).2.1]
    exact (h.stream s).congr (hinbox s)
  · rw [(hchannel .child).1, (hchannel .parent).1] at hne
    rw [(hchannel .child).2.2]
    exact h.unseen hne
  · rw [hopened, hsealed, payloads, hinbox]
    exact h.log s

theorem Channel.Still.refl (c : Channel) : c.Still c := ⟨rfl, rfl, rfl⟩

theorem still_update {s : Side} {c : Channel} (h : (w.channel s).Still c) (t : Side) :
    (w.channel t).Still (Function.update w.channel s c t) := by
  by_cases hts : t = s
  · subst hts
    rwa [Function.update_self]
  · rw [Function.update_of_ne hts]
    exact .refl _

/-- A channel that changed nothing the invariant is about. -/
theorem Link.Sound.keeps (h : w.Sound K) (s : Side) {c : Channel}
    (hkeeps : (w.channel s).Keeps K True c) (hstill : (w.channel s).Still c) :
    Link.Sound K { w with channel := Function.update w.channel s c } := by
  refine ⟨h.toNumbered.same (still_update hstill) (fun _ => rfl) (fun _ hf _ => hf) ⟨rfl, rfl⟩, ?_⟩
  cases s with
  | parent => exact h.phase.keeps hkeeps (.refl _)
  | child => exact h.phase.keeps (.refl _) hkeeps

@[simp] theorem payloads_concat (l : List Frame) (p : Packet) :
    payloads (l ++ [.data p]) = payloads l ++ [p.ciphertext.payload] := by
  simp [payloads]

/-- The log of a pipe into which a packet was put. -/
theorem log_push {opened sealed : List (List UInt8)} {l : List Frame} {p : Packet}
    (h : (opened ++ payloads l).Sublist sealed) :
    (opened ++ payloads (l ++ [.data p])).Sublist (sealed ++ [p.ciphertext.payload]) := by
  rw [payloads_concat, ← List.append_assoc]
  exact h.append (.refl _)

theorem Link.Sound.seal (h : w.Sound K) (s : Side) (r : Reads) (payload : List UInt8) (purpose : Str) :
    (w.exec prefixes (.seal s r payload purpose)).Sound K := by
  obtain ⟨ε, hplaced⟩ := h.placed s
  have hwp := hplaced.wp_seal r payload purpose
  rw [Link.exec]
  rcases hres : Channel.seal r payload purpose (w.channel s) with ⟨_ | p, c⟩
  · have hstays := wp_error hwp hres
    obtain ⟨_, e, hc, _, hsequence, hreceived⟩ := id hstays
    refine h.keeps s (hstays.keeps hplaced) ⟨?_, ?_, ?_⟩
    · rw [hplaced.epoch, hstays.1.epoch]
    · rw [hc, hsequence]
    · rw [hc, hreceived]
  have hsealed := wp_ok hwp hres
  obtain ⟨e, hc, _, hsequence, hreceived⟩ := hsealed.after
  have hsaid := hsealed.said
  have hepoch : c.endpoint.epoch = (w.channel s).endpoint.epoch := by
    rw [hplaced.epoch, hsealed.placed.epoch]
  have hsequence' : c.endpoint.sequence = (w.channel s).endpoint.sequence + 1 := by rw [hc, hsequence]
  have hreceived' : c.endpoint.received = (w.channel s).endpoint.received := by rw [hc, hreceived]
  subst hsaid
  cases s with
  | parent =>
    have hphase := (h.phase.parentPuts (f := .data p) hsealed.live hsealed.idle fun ε' hε' =>
      hplaced.unique hε' ▸ hsealed.packet).keeps (hsealed.keeps hplaced) (.refl _)
    refine ⟨⟨h.acks, fun s => ?_, ?_, fun s => ?_⟩, hphase⟩
    · cases s with
      | parent => simpa [Function.update, Side.other, hepoch, hreceived'] using h.stream .parent
      | child =>
        have := (h.stream .child).push hsealed.seq
        simpa [Function.update, Side.other, hepoch, hsequence'] using this
    · simpa [Function.update, hepoch] using h.unseen
    · cases s with
      | parent => exact h.log .parent
      | child => exact log_push (h.log .child)
  | child =>
    have hphase := (h.phase.childPuts (f := .data p) hsealed.live hsealed.idle fun ε' hε' =>
      hplaced.unique hε' ▸ hsealed.packet).keeps (.refl _) (hsealed.keeps hplaced)
    refine ⟨⟨?_, fun s => ?_, ?_, fun s => ?_⟩, hphase⟩
    · simpa [Function.update, hepoch] using h.acks
    · cases s with
      | parent =>
        have := (h.stream .parent).push hsealed.seq
        simpa [Function.update, Side.other, hepoch, hsequence'] using this
      | child => simpa [Function.update, Side.other, hepoch, hreceived'] using h.stream .child
    · simpa [Function.update, hepoch, hreceived'] using h.unseen
    · cases s with
      | parent => exact log_push (h.log .parent)
      | child => exact h.log .child

/-- The oldest packet on its way to an end is gone. -/
theorem Link.Sound.taken (h : w.Sound K) (s : Side) {p : Packet} {rest : List Frame}
    (hinbox : w.inbox s = .data p :: rest) : (w.take s rest).Sound K := by
  have hlog := h.log s
  have hstream := h.stream s
  rw [hinbox] at hlog hstream
  have hdropped : (w.opened s ++ payloads rest).Sublist (w.sealed s.other) :=
    (List.Sublist.append_left (List.sublist_cons_self _ _) _).trans hlog
  cases s with
  | parent =>
    have hphase := h.phase
    rw [hinbox] at hphase
    refine ⟨⟨h.acks, fun s => ?_, h.unseen, fun s => ?_⟩, hphase.parentTakes.1⟩
    · cases s with
      | parent => exact hstream.drop
      | child => exact h.stream .child
    · cases s with
      | parent => exact hdropped
      | child => exact h.log .child
  | child =>
    have hphase := h.phase
    rw [hinbox] at hphase
    refine ⟨⟨h.acks, fun s => ?_, h.unseen, fun s => ?_⟩, hphase.childTakes.1⟩
    · cases s with
      | parent => exact h.stream .parent
      | child => exact hstream.drop
    · cases s with
      | parent => exact h.log .parent
      | child => exact hdropped

theorem Link.Sound.open (h : w.Sound K) (s : Side) (r : Reads) (purpose : Str) :
    (w.exec prefixes (.open s r purpose)).Sound K := by
  rw [Link.exec]
  split
  · rename_i p rest hinbox
    obtain ⟨ε, hplaced⟩ := h.placed s
    have hwp := hplaced.wp_open r p purpose
    have htaken := h.taken s hinbox
    rcases hres : Channel.open r (.packet p) purpose (w.channel s) with ⟨_ | payload, c⟩
    · have hstays := wp_error hwp hres
      obtain ⟨_, e, hc, _, hsequence, hreceived⟩ := id hstays
      refine htaken.keeps s (hstays.keeps hplaced) ⟨?_, ?_, ?_⟩
      · exact hstays.1.epoch.trans hplaced.epoch.symm
      · exact (congrArg (·.endpoint.sequence) hc).trans hsequence
      · exact (congrArg (·.endpoint.received) hc).trans hreceived
    have hopened := wp_ok hwp hres
    obtain ⟨e, hc, _, hsequence, hreceived⟩ := hopened.after
    have hepoch : c.endpoint.epoch = (w.channel s).endpoint.epoch :=
      hopened.placed.epoch.trans hplaced.epoch.symm
    have hsequence' : c.endpoint.sequence = (w.channel s).endpoint.sequence := by rw [hc, hsequence]
    have hreceived' : c.endpoint.received (K.peer s.other) = p.header.seq := by
      rw [hc, hreceived, Function.update_self]
    have hlog := h.log s
    have hstream := h.stream s
    rw [hinbox] at hlog hstream
    have hlog' : (w.opened s ++ [payload] ++ payloads rest).Sublist (w.sealed s.other) := by
      rw [hopened.said, List.append_assoc]
      exact hlog
    have hkeeps : (w.channel s).Keeps K True c := hopened.keeps hplaced
    cases s with
    | parent =>
      simp only [Side.other] at hreceived'
      refine ⟨⟨htaken.acks, fun s => ?_, ?_, fun s => ?_⟩, htaken.phase.keeps hkeeps (.refl _)⟩
      · cases s with
        | parent =>
          simpa [Function.update, Link.take, Side.other, hepoch, hreceived'] using hstream.pop
        | child =>
          simpa [Function.update, Link.take, Side.other, hepoch, hsequence'] using h.stream .child
      · simpa [Function.update, Link.take, hepoch] using h.unseen
      · cases s with
        | parent => exact hlog'
        | child => exact h.log .child
    | child =>
      have hphase := h.phase
      rw [hinbox] at hphase
      obtain ⟨ε', hP, hC, _⟩ := hphase.childTakes.2
      simp only [Side.other] at hreceived'
      refine ⟨⟨?_, fun s => ?_, ?_, fun s => ?_⟩, htaken.phase.keeps (.refl _) hkeeps⟩
      · simpa [Function.update, Link.take, hepoch] using h.acks
      · cases s with
        | parent =>
          simpa [Function.update, Link.take, Side.other, hepoch, hsequence'] using h.stream .parent
        | child =>
          simpa [Function.update, Link.take, Side.other, hepoch, hreceived'] using hstream.pop
      · intro hne
        refine absurd ?_ hne
        simp only [Function.update]
        exact hepoch.trans (hC.epoch.trans hP.epoch.symm)
      · cases s with
        | parent => exact h.log .parent
        | child => exact hlog'
  · exact h

/-! ### Turns of control frames -/

theorem packets_send (s : Side) (c : Channel) (frames : List Control) (t : Side) :
    packets ((w.send s c frames).inbox t) = packets (w.inbox t) := by
  change packets (Function.update w.inbox s.other (w.inbox s.other ++ frames.map .control) t) = _
  by_cases hts : t = s.other
  · subst hts
    rw [Function.update_self, packets_append, packets_controls, List.append_nil]
  · rw [Function.update_of_ne hts]

/-- Control frames from an end whose numbers did not change. -/
theorem Link.Numbered.send (h : w.Numbered K) (s : Side) {c : Channel} {frames : List Control}
    (hstill : (w.channel s).Still c) (hnone : ∀ f ∈ frames, ¬f.isAck) :
    (w.send s c frames).Numbered K := by
  refine h.same (still_update hstill) (packets_send s c frames) (fun f hf hack => ?_) ⟨rfl, rfl⟩
  cases s with
  | parent => exact hf
  | child =>
    rcases List.mem_append.mp hf with hf | hf
    · exact hf
    · exact absurd hack (hnone f hf)

/-- A control frame was taken from a pipe. -/
theorem Link.Numbered.taken (h : w.Numbered K) (s : Side) {f : Control} {rest : List Frame}
    (hinbox : w.inbox s = .control f :: rest) : (w.take s rest).Numbered K := by
  refine h.same (fun _ => .refl _) (fun t => ?_) (fun _ hf _ => hf) ⟨rfl, rfl⟩
  change packets (Function.update w.inbox s rest t) = _
  by_cases hts : t = s
  · subst hts
    rw [Function.update_self, hinbox, packets_control]
  · rw [Function.update_of_ne hts]

theorem Link.Sound.controlFrames (h : w.Sound K) (s : Side) (r : Reads) :
    (w.exec prefixes (.controlFrames s r)).Sound K := by
  have hstill : wp (Channel.controlFrames prefixes w.drawn r) _ _ (w.channel s) := frames_still r
  have hexec : (w.exec prefixes (.controlFrames s r)).Numbered K := by
    rw [Link.exec]
    rcases hres : Channel.controlFrames prefixes w.drawn r (w.channel s) with ⟨_ | frames, c⟩
    · have hraised := wp_error hstill hres
      exact h.toNumbered.send s hraised fun _ hf => absurd hf List.not_mem_nil
    · have hreturned := wp_ok hstill hres
      exact h.toNumbered.send s hreturned.1 hreturned.2
  refine ⟨hexec, ?_⟩
  rw [Link.exec]
  cases s with
  | parent =>
    have hwp : wp (Channel.controlFrames prefixes w.drawn r) _ _ (w.channel .parent) :=
      h.phase.parentFrames r
    rcases hres : Channel.controlFrames prefixes w.drawn r (w.channel .parent) with ⟨_ | frames, c⟩
    · simpa [Link.send, Function.update, Side.other] using wp_error hwp hres
    · simpa [Link.send, Function.update, Side.other] using wp_ok hwp hres
  | child =>
    have hwp : wp (Channel.controlFrames prefixes w.drawn r) _ _ (w.channel .child) :=
      h.phase.childFrames r
    rcases hres : Channel.controlFrames prefixes w.drawn r (w.channel .child) with ⟨_ | frames, c⟩
    · simpa [Link.send, Function.update, Side.other] using wp_error hwp hres
    · simpa [Link.send, Function.update, Side.other] using wp_ok hwp hres

theorem Link.Sound.controlSent (h : w.Sound K) (s : Side) {f : Control}
    (hsent : w.SentAfterPut (.controlSent s f)) :
    (w.exec prefixes (.controlSent s f)).Sound K := by
  have hstill : (w.channel s).Still ((w.channel s).controlSent f) := by
    rcases controlSent_eq (c := w.channel s) (f := f) with heq | ⟨_, _, _, heq⟩
    · rw [heq]
      exact .refl _
    · rw [heq]
      exact ⟨rfl, rfl, rfl⟩
  refine ⟨h.toNumbered.same (still_update hstill) (fun _ => rfl) (fun _ hf _ => hf) ⟨rfl, rfl⟩, ?_⟩
  cases s with
  | parent => exact h.phase.parentSent f
  | child => exact h.phase.childSent hsent.1 hsent.2

theorem Control.Turns.absurd {f : Control} {motive : Prop} (h : f.Turns)
    (hack : ∀ challenge, f.body.data ≠ .ack challenge)
    (hcommit : ∀ challenge parent child, f.body.data ≠ .commit challenge parent child) : motive := by
  rcases h with ⟨_, h⟩ | ⟨_, _, _, h⟩
  · exact (hack _ h).elim
  · exact (hcommit _ _ _ h).elim

/-- A pipe without packets. -/
theorem Stream.empty {same : Prop} {received sequence : ℕ} {l : List Frame} (hl : packets l = [])
    (h : same → received ≤ sequence) : Stream same received sequence l := by
  refine ⟨hl ▸ .nil, fun p hp => ?_, fun hsame => ⟨h hsame, fun p hp => ?_⟩⟩
  · simp [hl] at hp
  · simp [hl] at hp

/-- The child takes new keys when both pipes are drained. -/
theorem Link.Sound.childTurns (h : w.Sound K) {f : Control} {rest : List Frame}
    (hinbox : w.inbox .child = .control f :: rest) {c : Channel} {frames : List Control}
    (hturns : f.Turns) (hrenewed : c.Renewed f)
    (hacks : ∀ g ∈ frames, g.isAck → g.body.epoch = f.body.epoch) :
    ((w.take .child rest).send .child c frames).Numbered K := by
  have htaken := h.toNumbered.taken .child hinbox
  obtain ⟨hepoch, hsequence, hreceived⟩ := hrenewed
  have hphase := h.phase
  rw [hinbox] at hphase
  refine hphase.childHead ?_ ?_
  · intro _ _ _ _ _ _ _ _ _ _ _ hdata _
    exact hturns.absurd (by simp [hdata]) (by simp [hdata])
  intro ε ε' challenge _ hnext hP hC _ _ htc hf _ htp
  have hahead : c.endpoint.epoch ≠ (w.channel .parent).endpoint.epoch := by
    rw [hepoch, hf, hnext.number, hP.epoch]
    exact Nat.succ_ne_self _
  have hpackets (s : Side) : packets (((w.take .child rest).send .child c frames).inbox s) = [] := by
    rw [packets_send]
    cases s with
    | parent => exact congrArg packets htp
    | child => exact congrArg packets htc
  refine ⟨fun g hg hack => ?_, fun s => ?_, fun _ => congrFun hreceived _, fun s => ?_⟩
  · change g.body.epoch ≤ c.endpoint.epoch
    rcases List.mem_append.mp hg with hg | hg
    · have := h.acks g hg hack
      rw [hC.epoch] at this
      rw [hepoch, hf, hnext.number]
      exact this.trans (Nat.le_succ _)
    · exact ((hacks g hg hack).trans hepoch.symm).le
  · exact .empty (hpackets s) fun hsame => absurd hsame hahead
  · rw [payloads, packets_send]
    exact htaken.log s

/-- The parent takes new keys when the pipe to the child is drained, and the child is ahead. -/
theorem Link.Sound.parentTurns (h : w.Sound K) {f : Control} {rest : List Frame}
    (hinbox : w.inbox .parent = .control f :: rest) {c : Channel} {frames : List Control}
    (hturns : f.Turns) (hrenewed : c.Renewed f) :
    ((w.take .parent rest).send .parent c frames).Numbered K := by
  have htaken := h.toNumbered.taken .parent hinbox
  obtain ⟨hepoch, hsequence, hreceived⟩ := hrenewed
  have hphase := h.phase
  rw [hinbox] at hphase
  refine hphase.parentHead ?_ ?_ ?_
  · intro hdata _
    exact hturns.absurd (by simp [hdata]) (by simp [hdata])
  · intro _ _ _ _ _ _ _ _ _ _ _ _ hdata
    exact hturns.absurd (by simp [hdata]) (by simp [hdata])
  intro ε ε' challenge _ hnext hP hC _ _ htc hf _ hrest
  have hahead : (w.channel .child).endpoint.epoch ≠ (w.channel .parent).endpoint.epoch := by
    rw [hC.epoch, hnext.number, hP.epoch]
    exact Nat.succ_ne_self _
  refine ⟨h.acks, fun s => ?_, fun hne => absurd ?_ hne, fun s => ?_⟩
  · cases s with
    | parent =>
      have hstream := htaken.stream .parent
      refine ⟨hstream.increasing, hstream.sent, fun _ => ⟨?_, fun p hp => ?_⟩⟩
      · exact (congrFun hreceived _).trans_le (Nat.zero_le _)
      · refine (congrFun hreceived _).trans_lt ?_
        obtain ⟨g, hg, hgp⟩ := List.mem_filterMap.mp hp
        cases g with
        | data q =>
          obtain rfl := Option.some.inj hgp
          exact (hrest _ hg).seq.1
        | control _ => cases hgp
    | child =>
      refine .empty ?_ fun _ => ?_
      · rw [packets_send]
        exact congrArg packets htc
      · exact (h.unseen hahead).trans_le (Nat.zero_le _)
  · exact (hC.epoch.trans hf.symm).trans hepoch.symm
  · rw [payloads, packets_send]
    exact htaken.log s

/-- The numbers after a control frame was accepted or refused. -/
theorem Link.Sound.accepted (h : w.Sound K) (s : Side) {f : Control} {rest : List Frame}
    (hinbox : w.inbox s = .control f :: rest) {c : Channel} {frames : List Control}
    (hmoves : f.Moves (w.channel s) frames c) : ((w.take s rest).send s c frames).Numbered K := by
  rcases hmoves with ⟨hstill, hnone⟩ | ⟨hturns, hrenewed, hacks⟩
  · exact (h.toNumbered.taken s hinbox).send s hstill hnone
  · cases s with
    | parent => exact h.parentTurns hinbox hturns hrenewed
    | child => exact h.childTurns hinbox hturns hrenewed hacks

theorem Link.Sound.acceptControl (h : w.Sound K) (s : Side) (r : Reads) :
    (w.exec prefixes (.acceptControl s r)).Sound K := by
  rw [Link.exec]
  split
  · rename_i f rest hinbox
    have hmoves : wp (Channel.acceptControl prefixes w.drawn r f) _ _ (w.channel s) :=
      accept_moves f r
    have hphase := h.phase
    rcases hres : Channel.acceptControl prefixes w.drawn r f (w.channel s) with ⟨_ | frames, c⟩
    · have hraised := wp_error hmoves hres
      have hnumbered := h.accepted s hinbox hraised
      refine ⟨hnumbered.same (fun _ => .refl _) (fun _ => rfl) (fun _ hf _ => hf) ⟨rfl, rfl⟩, ?_⟩
      cases s with
      | parent =>
        rw [hinbox] at hphase
        simpa [Link.send, Link.take, Function.update, Side.other] using
          wp_error (hphase.parentAccepts r) hres
      | child =>
        rw [hinbox] at hphase
        simpa [Link.send, Link.take, Function.update, Side.other] using
          wp_error (hphase.childAccepts h.acks r) hres
    · have hreturned := wp_ok hmoves hres
      refine ⟨h.accepted s hinbox hreturned, ?_⟩
      cases s with
      | parent =>
        rw [hinbox] at hphase
        simpa [Link.send, Link.take, Function.update, Side.other] using
          wp_ok (hphase.parentAccepts r) hres
      | child =>
        rw [hinbox] at hphase
        simpa [Link.send, Link.take, Function.update, Side.other] using
          wp_ok (hphase.childAccepts h.acks r) hres
  · exact h

/-- Every turn keeps the invariant. -/
theorem Link.Sound.exec (h : w.Sound K) {turn : Turn} (hsent : w.SentAfterPut turn) :
    (w.exec prefixes turn).Sound K := by
  match turn, hsent with
  | .seal s r payload purpose, _ => exact h.seal s r payload purpose
  | .open s r purpose, _ => exact h.open s r purpose
  | .controlFrames s r, _ => exact h.controlFrames s r
  | .acceptControl s r, _ => exact h.acceptControl s r
  | .controlSent s f, hsent => exact h.controlSent s hsent

theorem Link.Sound.start {ε : Era} {parent child : Channel} {drawn : ℕ}
    (h : Paired K ε drawn parent child) : (Link.start parent child drawn).Sound K := by
  obtain ⟨b, b', ca, v, v', rfl, rfl⟩ := h.fresh
  refine ⟨⟨fun _ hf => absurd hf List.not_mem_nil, fun s => ?_, fun _ => rfl, fun s => ?_⟩, ?_⟩
  · cases s with
    | parent => exact .empty rfl fun _ => le_rfl
    | child => exact .empty rfl fun _ => le_rfl
  · exact .slnil
  · exact .settled ε h.drawn h.atParent h.atChild rfl (fun p hp => absurd hp (Option.not_mem_none p))
      (fun _ hf => absurd hf List.not_mem_nil) fun _ hf => absurd hf List.not_mem_nil

theorem Link.Sound.run (h : w.Sound K) {turns : List Turn} {w' : Link}
    (hrun : Run (Guarded Link.SentAfterPut (Link.Step prefixes)) w turns w') : w'.Sound K :=
  hrun.invariant (fun _ _ _ hs hstep => hstep.2 ▸ hs.exec hstep.1) h

/-! ### Agreement -/

/-- The ends agree: the child is in the epoch of the parent or one ahead, in one epoch they hold each
    other's certificates, a packet that reaches an end is of its epoch and is opened when it is
    timely (a packet to the parent, until it refused an acknowledgement), and what was opened is a
    part of what was sealed, in order. -/
structure Link.Agrees (w : Link) : Prop where
  epochs : (w.channel .child).endpoint.epoch = (w.channel .parent).endpoint.epoch ∨
    (w.channel .child).endpoint.epoch = (w.channel .parent).endpoint.epoch + 1
  certificates : (w.channel .child).endpoint.epoch = (w.channel .parent).endpoint.epoch →
    (w.channel .parent).endpoint.localCert = (w.channel .child).remoteCert ∧
      (w.channel .parent).remoteCert = (w.channel .child).endpoint.localCert
  opens : ∀ s p rest, w.inbox s = .data p :: rest →
    (s = .parent → ∀ f ∈ w.refused .parent, ¬f.isAck) →
    p.header.epoch = (w.channel s).endpoint.epoch ∧
      ∀ r now, (w.channel s).Live r now → p.Timely now →
        wp (Channel.open r (.packet p) p.header.purpose)
          (fun payload _ => payload = p.ciphertext.payload) (fun _ _ => False) (w.channel s)
  once : ∀ s, (w.opened s).Sublist (w.sealed s.other)

/-- The ends of a link in a phase are in one era, or the child is in the next. -/
theorem Phase.eras {lossy : Prop} {put refused : List Control} {n : ℕ} {P C : Channel}
    {tc tp : List Frame} (h : Phase K lossy put refused n P C tc tp) :
    ∃ ε ε', K.Placed ε .parent P ∧ K.Placed ε' .child C ∧
      (ε' = ε ∨ ε'.number = ε.number + 1) := by
  cases h with
  | settled ε _ hP hC => exact ⟨ε, ε, hP, hC, .inl rfl⟩
  | proposed ε _ _ _ _ _ _ hP hC => exact ⟨ε, ε, hP, hC, .inl rfl⟩
  | replied ε _ _ _ _ _ _ hP hC => exact ⟨ε, ε, hP, hC, .inl rfl⟩
  | committed ε _ _ _ _ hP hC => exact ⟨ε, ε, hP, hC, .inl rfl⟩
  | acked ε ε' _ _ hnext hP hC => exact ⟨ε, ε', hP, hC, .inr hnext.number⟩

/-- A packet that reaches an end is of the era both are in. -/
theorem Link.Sound.reached (h : w.Sound K) {s : Side} {p : Packet} {rest : List Frame}
    (hinbox : w.inbox s = .data p :: rest)
    (haccepted : s = .parent → ∀ f ∈ w.refused .parent, ¬f.isAck) :
    ∃ ε, K.Placed ε .parent (w.channel .parent) ∧ K.Placed ε .child (w.channel .child) ∧
      K.Carries ε s.other p := by
  have hphase := h.phase
  cases s with
  | parent =>
    rw [hinbox] at hphase
    exact hphase.parentTakes.2 (haccepted rfl)
  | child =>
    rw [hinbox] at hphase
    exact hphase.childTakes.2

theorem Link.Sound.agrees (h : w.Sound K) (hK : K.Sound) : w.Agrees := by
  obtain ⟨ε, ε', hP, hC, hnext⟩ := h.phase.eras
  refine ⟨?_, fun heq => ?_, fun s p rest hinbox haccepted => ?_, fun s => ?_⟩
  · rw [hP.epoch, hC.epoch]
    rcases hnext with rfl | hnext
    · exact .inl rfl
    · exact .inr hnext
  · rw [hP.epoch, hC.epoch] at heq
    rcases hnext with rfl | hnext
    · exact ⟨hP.localCert.trans hC.remoteCert.symm, hP.remoteCert.trans hC.localCert.symm⟩
    · exact absurd (heq.symm.trans hnext) (Nat.succ_ne_self _).symm
  · obtain ⟨η, hP', hC', hcarries⟩ := h.reached hinbox haccepted
    have hplaced : K.Placed η s (w.channel s) := by
      cases s with
      | parent => exact hP'
      | child => exact hC'
    have hsame : (w.channel .child).endpoint.epoch = (w.channel .parent).endpoint.epoch :=
      hC'.epoch.trans hP'.epoch.symm
    have hnew := ((h.stream s).seen hsame).2 p (by rw [hinbox]; exact List.mem_cons_self)
    refine ⟨?_, fun r now hlive htimely => hplaced.opens hK hcarries hlive htimely hnew⟩
    rw [hplaced.epoch, hcarries.header]
  · exact (List.sublist_append_left _ _).trans (h.log s)

/-- CORRECT: in every run of a pair, whatever the ends read and whichever frames they refuse, they
    agree. -/
theorem Link.agreement {rotationMs : ℕ} {now : ℤ} {parentLabel childLabel : Str}
    {r r' : Option ℤ × Option ℤ} {verified verified' : Bool} {clock : Option ℤ}
    {parent child : Channel} {b : Bootstrap} {a : Authority} {turns : List Turn}
    (hpair : createPair prefixes parentLabel childLabel r r' verified
      (World.start true rotationMs now).authority = (.ok (parent, b), a))
    (hboot : fromBootstrap b clock verified' = .ok child)
    (hrun : Run (Guarded Link.SentAfterPut (Link.Step prefixes)) (Link.start parent child a.drawn)
      turns w) : w.Agrees := by
  obtain ⟨K, ε, hpaired⟩ := paired hpair hboot
  exact ((Link.Sound.start hpaired).run hrun).agrees hpaired.sound

/-! ### A pair that was made at time 0 -/

instance (f : Control) : Decidable f.isAck :=
  match h : f.body.data with
  | .ack challenge => isTrue ⟨challenge, h⟩
  | .request | .proposal _ _ | .reply _ _ _ | .commit _ _ _ =>
    isFalse fun ⟨_, hack⟩ => by cases h.symm.trans hack

instance (w : Link) : ∀ turn, Decidable (w.SentAfterPut turn)
  | .seal _ _ _ _ => isTrue trivial
  | .open _ _ _ => isTrue trivial
  | .controlFrames _ _ => isTrue trivial
  | .acceptControl _ _ => isTrue trivial
  | .controlSent s f => inferInstanceAs (Decidable (f ∈ w.put s ∧
      (f.isAck → ∀ p ∈ (w.channel s).pending, p.stage.isAck = true → f.body.epoch = p.epoch)))

/-- A turn that is allowed. -/
def Link.exec? (w : Link) (turn : Turn) : Option Link :=
  if w.SentAfterPut turn then some (w.exec (fun _ => 0) turn) else none

/-- Whether the turns of a pair that was made at time 0 lead to a link that passes the test. -/
def sampled (turns : List Turn) (test : Link → Bool) : Bool :=
  match createPair (fun _ => 0) "ugcap.parent".toList "ugcap.worker".toList (some 0, some 0)
      (some 0, some 0) true (World.start true 10000 0).authority with
  | (.ok (parent, b), a) =>
    match fromBootstrap b (some 0) true with
    | .ok child => (turns.foldlM Link.exec? (Link.start parent child a.drawn)).any test
    | .error _ => false
  | (.error _, _) => false

/-- The link of a pair that was made at time 0, after the turns. -/
def Sampled (turns : List Turn) (P : Link → Prop) : Prop :=
  ∃ parent b a child w,
    createPair (fun _ => 0) "ugcap.parent".toList "ugcap.worker".toList (some 0, some 0)
      (some 0, some 0) true (World.start true 10000 0).authority = (.ok (parent, b), a) ∧
    fromBootstrap b (some 0) true = .ok child ∧
    Run (Guarded Link.SentAfterPut (Link.Step fun _ => 0)) (Link.start parent child a.drawn) turns w ∧
    P w

theorem sampled_of {turns : List Turn} {test : Link → Bool} (h : sampled turns test = true) :
    Sampled turns fun w => test w = true := by
  rw [sampled] at h
  split at h
  · rename_i parent b a hpair
    split at h
    · rename_i child hboot
      obtain ⟨w, hw, htest⟩ := (Option.any_eq_true _ _).mp h
      refine ⟨parent, b, a, child, w, hpair, hboot, (Run.of_exec hw).mono fun w turn w' hstep => ?_,
        htest⟩
      obtain ⟨hguard, hexec⟩ := Option.ite_none_right_eq_some.mp hstep
      exact ⟨hguard, Option.some.inj hexec⟩
    · cases h
  · cases h

/-- Everything is read at one time, and the gate approves. -/
def Reads.at (now : ℤ) : Reads := ⟨.approved, some now, some now, some now⟩

/-- The acknowledgement of the first handshake of a pair that was made at time 0, at time 9000. -/
def firstAck : Control :=
  let body : ControlBody :=
    { boot := 1, session := 2, sender := 9, receiver := 5, seq := 2, issued := 9000
      expires := 14000, epoch := 1, data := .ack 12 }
  ⟨body, ⟨some 7, body⟩⟩

/-- A handshake with a packet in each pipe when it begins, and one of the child behind its
    acknowledgement. -/
def rekeyed : List Turn :=
  [.seal .parent (.at 8000) [104] "greeting".toList, .seal .child (.at 8000) [105] "greeting".toList,
    .controlFrames .parent (.at 9000), .open .child (.at 9000) "greeting".toList,
    .acceptControl .child (.at 9000), .open .parent (.at 9000) "greeting".toList,
    .acceptControl .parent (.at 9000), .acceptControl .child (.at 9000), .controlSent .child firstAck,
    .seal .child (.at 9100) [106] "greeting".toList, .acceptControl .parent (.at 9100),
    .open .parent (.at 9100) "greeting".toList, .seal .parent (.at 9200) [107] "greeting".toList]

/-- Both ends are in the next epoch, everything but the last packet was opened, and they agree. -/
theorem Link.agreement_rekeyed : Sampled rekeyed fun w =>
    ((w.channel .parent).endpoint.epoch = 1 ∧ (w.channel .child).endpoint.epoch = 1 ∧
      w.opened .child = [[104]] ∧ w.opened .parent = [[105], [106]]) ∧ w.Agrees := by
  have hrun : sampled rekeyed (fun w => (w.channel .parent).endpoint.epoch = 1 ∧
      (w.channel .child).endpoint.epoch = 1 ∧ w.opened .child = [[104]] ∧
      w.opened .parent = [[105], [106]]) = true := by decide +kernel
  obtain ⟨parent, b, a, child, w, hpair, hboot, hrun, hopened⟩ := sampled_of hrun
  exact ⟨parent, b, a, child, w, hpair, hboot, hrun, of_decide_eq_true hopened,
    Link.agreement hpair hboot hrun⟩

/-- A handshake whose acknowledgement the parent reads when its lifetime is over. -/
def late : List Turn :=
  [.controlFrames .parent (.at 9000), .acceptControl .child (.at 9000),
    .acceptControl .parent (.at 9000), .acceptControl .child (.at 9000), .controlSent .child firstAck,
    .seal .child (.at 13999) [104] "greeting".toList, .acceptControl .parent (.at 14000)]

/-- The oldest frame on its way to the parent is a packet of another epoch than the parent's. -/
def Link.stale (w : Link) : Bool :=
  match w.inbox .parent with
  | .data p :: _ => p.header.epoch ≠ (w.channel .parent).endpoint.epoch
  | _ => false

theorem Link.stale_after_late_ack : Sampled late fun w => w.stale = true :=
  sampled_of (by decide +kernel)

end Runs

end Angerona.Mesh
