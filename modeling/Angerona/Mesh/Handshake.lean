import Angerona.Lib.Transition
import Angerona.Mesh.Pairing

/-!
    The handshake between two ends.

    A link is two channels with a pipe in each direction. The ends are in one era, or the child is
    one ahead; what is in the pipes and what each end waits for say how far a handshake is. Frames
    may be refused and handshakes may die, so most of these states have a form with the frame
    lost. -/

namespace Angerona.Mesh
open Text Effect Transition

/-! ### Links -/

inductive Frame where
  | data (p : Packet)
  | control (f : Control)

/-- Two channels and their pipes, with what was sealed and opened, the control frames each end put
    into its pipe, and those it refused. -/
structure Link where
  channel : Side → Channel
  /-- The frames on their way to an end, oldest first. -/
  inbox : Side → List Frame
  drawn : ℕ
  sealed : Side → List (List UInt8)
  opened : Side → List (List UInt8)
  put : Side → List Control
  refused : Side → List Control

/-- What an end does next, with what it reads. -/
inductive Turn where
  | seal (s : Side) (r : Reads) (payload : List UInt8) (purpose : Str)
  | open (s : Side) (r : Reads) (purpose : Str)
  | controlFrames (s : Side) (r : Reads)
  | acceptControl (s : Side) (r : Reads)
  | controlSent (s : Side) (frame : Control)

/-- A pair that was just made. -/
def Link.start (parent child : Channel) (drawn : ℕ) : Link where
  channel := fun | .parent => parent | .child => child
  inbox := fun _ => []
  drawn
  sealed := fun _ => []
  opened := fun _ => []
  put := fun _ => []
  refused := fun _ => []

/-- An end returned control frames, and they go into its pipe. -/
def Link.send (w : Link) (s : Side) (c : Channel) (frames : List Control) : Link :=
  { w with
    channel := Function.update w.channel s c
    inbox := Function.update w.inbox s.other (w.inbox s.other ++ frames.map .control)
    drawn := w.drawn + 2
    put := Function.update w.put s (w.put s ++ frames) }

/-- The oldest frame was taken from a pipe. -/
def Link.take (w : Link) (s : Side) (rest : List Frame) : Link :=
  { w with inbox := Function.update w.inbox s rest }

variable (prefixes : Prefixes)

/-- A turn; a call may raise and keep what it changed. -/
def Link.exec (w : Link) : Turn → Link
  | .seal s r payload purpose =>
    match Channel.seal r payload purpose (w.channel s) with
    | (.ok p, c) =>
      { w with
        channel := Function.update w.channel s c
        inbox := Function.update w.inbox s.other (w.inbox s.other ++ [.data p])
        sealed := Function.update w.sealed s (w.sealed s ++ [payload]) }
    | (.error _, c) => { w with channel := Function.update w.channel s c }
  | .open s r purpose =>
    match w.inbox s with
    | .data p :: rest =>
      match Channel.open r (.packet p) purpose (w.channel s) with
      | (.ok payload, c) =>
        { w.take s rest with
          channel := Function.update w.channel s c
          opened := Function.update w.opened s (w.opened s ++ [payload]) }
      | (.error _, c) => { w.take s rest with channel := Function.update w.channel s c }
    | _ => w
  | .controlFrames s r =>
    match Channel.controlFrames prefixes w.drawn r (w.channel s) with
    | (.ok frames, c) => w.send s c frames
    | (.error _, c) => w.send s c []
  | .acceptControl s r =>
    match w.inbox s with
    | .control f :: rest =>
      match Channel.acceptControl prefixes w.drawn r f (w.channel s) with
      | (.ok frames, c) => (w.take s rest).send s c frames
      | (.error _, c) =>
        { (w.take s rest).send s c [] with
          refused := Function.update w.refused s (w.refused s ++ [f]) }
    | _ => w
  | .controlSent s f =>
    { w with channel := Function.update w.channel s ((w.channel s).controlSent f) }

def Control.isAck (f : Control) : Prop := ∃ challenge, f.body.data = .ack challenge

/-- `control_sent` is called only after the acknowledgement is in the pipe. -/
def Link.SentAfterPut (w : Link) : Turn → Prop
  | .controlSent s f => f ∈ w.put s ∧
    (f.isAck → ∀ p ∈ (w.channel s).pending, p.stage.isAck = true → f.body.epoch = p.epoch)
  | _ => True

def Link.Step (w : Link) (turn : Turn) (w' : Link) : Prop := w.exec prefixes turn = w'

/-! ### How far a handshake is -/

/-- What a handshake is about to put in place of an era. -/
structure Pairing.Next (K : Pairing) (ε ε' : Era) (n : ℕ) : Prop where
  number : ε'.number = ε.number + 1
  lifetime : ε'.expires - ε'.issued ≤ K.rotationMs
  fresh : ∀ s, ε'.x s ≠ ε.x s
  drawn : ε'.Drawn n

/-- A frame outside a handshake: a packet of the era, or the child's request for the next. -/
def Pairing.Ordinary (K : Pairing) (ε : Era) (s : Side) : Frame → Prop
  | .data p => K.Carries ε s p
  | .control f => s = .child ∧ f.body.data = .request ∧ f.body.epoch = ε.number + 1

/-- An end waits in a handshake, unless it was closed. -/
def Channel.Awaits (c : Channel) (lossy : Prop) (ε : Era) (s : Side) (challenge : ℕ) (stage : Stage) :
    Prop :=
  (lossy ∧ c.endpoint.closed = true) ∨
    ∃ deadline, c.pending = some ⟨ε.number, ε.x s, challenge, deadline, stage⟩

/-- If an end waits, it is for its acknowledgement to be in the pipe. -/
def Channel.Settled (c : Channel) (ε : Era) : Prop :=
  ∀ p ∈ c.pending, p.epoch = ε.number ∧ p.stage.isAck = true

/-- The last frame of a pipe is one of the handshake, unless it was lost. -/
def Ends (lossy : Prop) (ε : Era) (data : ControlData) (l : List Frame) : Prop :=
  (∃ f : Control, f.body.epoch = ε.number ∧ f.body.data = data ∧ l = [.control f]) ∨ lossy ∧ l = []

/-- The pipe to a parent that the child is ahead of: the acknowledgement first, unless it was refused
    or never put. -/
def Pairing.AckAhead (K : Pairing) (lossy : Prop) (put refused : List Control) (ε : Era)
    (challenge : ℕ) (c : Channel) (l : List Frame) : Prop :=
  (∃ f rest, l = .control f :: rest ∧ f.body.epoch = ε.number ∧ f.body.data = .ack challenge ∧
    ∀ g ∈ rest, K.Ordinary ε .child g) ∨
  (lossy ∧ (∃ f ∈ refused, f.isAck) ∧ ∀ g ∈ l, K.Ordinary ε .child g) ∨
  (lossy ∧ l = [] ∧ (c.endpoint.closed = true ∨ c.pending.isSome = true) ∧
    ∀ f ∈ put, f.isAck → f.body.epoch ≠ ε.number)

/-- The state of a link, by the ends and the pipes to the child and to the parent. -/
inductive Phase (K : Pairing) (lossy : Prop) (put refused : List Control) (n : ℕ)
    (P C : Channel) (toChild toParent : List Frame) : Prop where
  | settled (ε : Era) (hn : ε.Drawn n) (hP : K.Placed ε .parent P) (hC : K.Placed ε .child C)
    (hidle : P.pending = none) (hsettled : C.Settled ε)
    (hchild : ∀ f ∈ toChild, K.Ordinary ε .parent f) (hparent : ∀ f ∈ toParent, K.Ordinary ε .child f)
  | proposed (ε ε' : Era) (challenge : ℕ) (before last : List Frame) (hn : ε.Drawn n)
    (hnext : K.Next ε ε' n) (hP : K.Placed ε .parent P) (hC : K.Placed ε .child C)
    (hwait : P.Awaits lossy ε' .parent challenge (.proposal (K.cert ε' .parent)))
    (hsettled : C.Settled ε) (hchild : toChild = before ++ last)
    (hbefore : ∀ f ∈ before, K.Ordinary ε .parent f)
    (hlast : Ends lossy ε' (.proposal (K.cert ε' .parent) challenge) last)
    (hparent : ∀ f ∈ toParent, K.Ordinary ε .child f)
  | replied (ε ε' : Era) (challenge : ℕ) (before last : List Frame) (hn : ε.Drawn n)
    (hnext : K.Next ε ε' n) (hP : K.Placed ε .parent P) (hC : K.Placed ε .child C)
    (hwait : P.Awaits lossy ε' .parent challenge (.proposal (K.cert ε' .parent)))
    (hwait' : C.Awaits lossy ε' .child challenge
      (.reply (K.cert ε' .parent) (ε'.noncePrefix .child)))
    (hchild : toChild = []) (hparent : toParent = before ++ last)
    (hbefore : ∀ f ∈ before, K.Ordinary ε .child f)
    (hlast : Ends lossy ε' (.reply challenge (ε'.x .child) (ε'.noncePrefix .child)) last)
  | committed (ε ε' : Era) (challenge : ℕ) (hn : ε.Drawn n) (hnext : K.Next ε ε' n)
    (hP : K.Placed ε .parent P) (hC : K.Placed ε .child C)
    (hwait : P.Awaits lossy ε' .parent challenge
      (.commit (K.cert ε' .parent) (K.cert ε' .child)))
    (hwait' : C.Awaits lossy ε' .child challenge
      (.reply (K.cert ε' .parent) (ε'.noncePrefix .child)))
    (hchild : Ends lossy ε' (.commit challenge (K.cert ε' .parent) (K.cert ε' .child)) toChild)
    (hparent : toParent = [])
  | acked (ε ε' : Era) (challenge : ℕ) (hn : ε.Drawn n) (hnext : K.Next ε ε' n)
    (hP : K.Placed ε .parent P) (hC : K.Placed ε' .child C)
    (hwait : P.Awaits lossy ε' .parent challenge
      (.commit (K.cert ε' .parent) (K.cert ε' .child)))
    (hsettled : C.Settled ε') (hchild : toChild = [])
    (hparent : K.AckAhead lossy put refused ε' challenge C toParent)

/-! ### What leaves the state alone -/

section Phases

variable {K : Pairing} {lossy lossy' : Prop} {put put' refused refused' : List Control} {n n' : ℕ}
  {P P' C C' c c' c'' : Channel} {tc tp : List Frame} {ε ε' : Era} {s : Side} {prefixes : Prefixes}

/-- An end keeps its place and what it waits for, or is closed. -/
structure Channel.Keeps (K : Pairing) (lossy : Prop) (c c' : Channel) : Prop where
  placed : ∀ ε s, K.Placed ε s c → K.Placed ε s c'
  rest : (c'.pending = c.pending ∧ c'.endpoint.closed = c.endpoint.closed) ∨
    lossy ∧ c'.pending = none ∧ c'.endpoint.closed = true

theorem Channel.Keeps.refl (c : Channel) : c.Keeps K lossy c := ⟨fun _ _ h => h, .inl ⟨rfl, rfl⟩⟩

theorem Channel.Aside.keeps (h : c.Aside c') : c.Keeps K lossy c' := by
  refine ⟨fun ε s hp => hp.aside h, .inl ?_⟩
  obtain ⟨_, _, _, _, _, _, rfl⟩ := h
  exact ⟨rfl, rfl⟩

theorem Channel.Keeps.close (c : Channel) : c.Keeps K True c.close :=
  ⟨fun _ _ h => h.close, .inr ⟨trivial, rfl, rfl⟩⟩

/-- An end is in one era. -/
theorem Pairing.Placed.unique (h : K.Placed ε s c) (h' : K.Placed ε' s c) : ε = ε' := by
  have hcert : K.cert ε s = K.cert ε' s := h.localCert.symm.trans h'.localCert
  have hother : K.cert ε s.other = K.cert ε' s.other := h.remoteCert.symm.trans h'.remoteCert
  simp only [Pairing.cert, epochCert, issue, Cert.mk.injEq, CertBody.mk.injEq] at hcert hother
  obtain ⟨number, issued, expires, x, noncePrefix⟩ := ε
  obtain ⟨number', issued', expires', x', noncePrefix'⟩ := ε'
  have hx : x = x' := by
    funext t
    cases s <;> cases t <;> simp_all [Side.other]
  have hprefix : noncePrefix = noncePrefix' := by
    funext t
    cases s <;> cases t <;> simp_all [Side.other]
  simp_all

theorem Pairing.Placed.side {s' : Side} (h : K.Placed ε s c) (h' : K.Placed ε' s' c) : s = s' := by
  have hrole := h.role.symm.trans h'.role
  cases s <;> cases s' <;> simp_all

/-- An end stays placed when it stays in the era it is in. -/
theorem Pairing.Placed.keeps (h : K.Placed ε s c) (h' : K.Placed ε s c')
    (hrest : c'.pending = c.pending ∧ c'.endpoint.closed = c.endpoint.closed) :
    c.Keeps K lossy c' := by
  refine ⟨fun ε' s' hp => ?_, .inl hrest⟩
  obtain rfl := h.side hp
  obtain rfl := h.unique hp
  exact h'

theorem Channel.Stays.keeps (h : K.Placed ε s c) (h' : c.Stays K ε s c') : c.Keeps K lossy c' := by
  obtain ⟨hplaced, e, rfl, hclosed, _⟩ := h'
  exact h.keeps hplaced ⟨rfl, hclosed⟩

theorem Channel.SealedFrom.keeps {payload : List UInt8} {p : Packet} (h : K.Placed ε s c)
    (h' : c.SealedFrom K ε s payload p c') : c.Keeps K lossy c' := by
  obtain ⟨e, rfl, hclosed, _⟩ := h'.after
  exact h.keeps h'.placed ⟨rfl, hclosed⟩

theorem Channel.OpenedFrom.keeps {payload : List UInt8} {p : Packet} (h : K.Placed ε s c)
    (h' : c.OpenedFrom K ε s p payload c') : c.Keeps K lossy c' := by
  obtain ⟨e, rfl, hclosed, _⟩ := h'.after
  exact h.keeps h'.placed ⟨rfl, hclosed⟩

theorem Channel.Awaits.keeps {challenge : ℕ} {stage : Stage}
    (h : c.Awaits lossy ε s challenge stage) (h' : c.Keeps K lossy c') :
    c'.Awaits lossy ε s challenge stage := by
  rcases h'.rest with ⟨hpending, hclosed⟩ | ⟨hlossy, _, hclosed⟩
  · rwa [Channel.Awaits, hpending, hclosed]
  · exact .inl ⟨hlossy, hclosed⟩

theorem Channel.Awaits.imp {challenge : ℕ} {stage : Stage} (h : c.Awaits lossy ε s challenge stage)
    (himp : lossy → lossy') : c.Awaits lossy' ε s challenge stage := h.imp_left (And.imp_left himp)

theorem Ends.imp {data : ControlData} {l : List Frame} (h : Ends lossy ε data l)
    (himp : lossy → lossy') : Ends lossy' ε data l := h.imp_right (And.imp_left himp)

theorem Channel.Settled.keeps (h : c.Settled ε) (h' : c.Keeps K lossy c') : c'.Settled ε := by
  rcases h'.rest with ⟨hpending, _⟩ | ⟨_, hpending, _⟩
  · rwa [Channel.Settled, hpending]
  · exact fun p hp => by simp [hpending] at hp

theorem Phase.keeps (h : Phase K lossy put refused n P C tc tp) (hP : P.Keeps K lossy P')
    (hC : C.Keeps K lossy C') : Phase K lossy put refused n P' C' tc tp := by
  cases h with
  | settled ε hn hP0 hC0 hidle hsettled hchild hparent =>
    refine .settled ε hn (hP.placed _ _ hP0) (hC.placed _ _ hC0) ?_ (hsettled.keeps hC) hchild hparent
    rcases hP.rest with ⟨hpending, _⟩ | ⟨_, hpending, _⟩
    · exact hpending.trans hidle
    · exact hpending
  | proposed ε ε' challenge before last hn hnext hP0 hC0 hwait hsettled hchild hbefore hlast hparent =>
    exact .proposed ε ε' challenge before last hn hnext (hP.placed _ _ hP0) (hC.placed _ _ hC0)
      (hwait.keeps hP) (hsettled.keeps hC) hchild hbefore hlast hparent
  | replied ε ε' challenge before last hn hnext hP0 hC0 hwait hwait' hchild hparent hbefore hlast =>
    exact .replied ε ε' challenge before last hn hnext (hP.placed _ _ hP0) (hC.placed _ _ hC0)
      (hwait.keeps hP) (hwait'.keeps hC) hchild hparent hbefore hlast
  | committed ε ε' challenge hn hnext hP0 hC0 hwait hwait' hchild hparent =>
    exact .committed ε ε' challenge hn hnext (hP.placed _ _ hP0) (hC.placed _ _ hC0) (hwait.keeps hP)
      (hwait'.keeps hC) hchild hparent
  | acked ε ε' challenge hn hnext hP0 hC0 hwait hsettled hchild hparent =>
    refine .acked ε ε' challenge hn hnext (hP.placed _ _ hP0) (hC.placed _ _ hC0) (hwait.keeps hP)
      (hsettled.keeps hC) hchild ?_
    rcases hparent with hack | hrefused | ⟨hlossy, hempty, hstuck, hput⟩
    · exact .inl hack
    · exact .inr (.inl hrefused)
    · refine .inr (.inr ⟨hlossy, hempty, ?_, hput⟩)
      rcases hC.rest with ⟨hpending, hclosed⟩ | ⟨_, _, hclosed⟩
      · rwa [hpending, hclosed]
      · exact .inl hclosed

theorem Era.Drawn.mono (h : ε.Drawn n) (hle : n ≤ n') : ε.Drawn n' := fun s =>
  (h s).imp fun _ hm => ⟨hm.1.trans_le hle, hm.2⟩

theorem Pairing.Next.mono (h : K.Next ε ε' n) (hle : n ≤ n') : K.Next ε ε' n' :=
  { h with drawn := h.drawn.mono hle }

/-- What may be lost may be lost; later draws and refusals, and frames that acknowledge nothing, do
    not matter. -/
theorem Phase.mono (h : Phase K lossy put refused n P C tc tp) (himp : lossy → lossy') (hn : n ≤ n')
    (hput : ∀ f ∈ put', f.isAck → f ∈ put) (hrefused : ∀ f ∈ refused, f ∈ refused') :
    Phase K lossy' put' refused' n' P C tc tp := by
  cases h with
  | settled ε hd hP hC hidle hsettled hchild hparent =>
    exact .settled ε (hd.mono hn) hP hC hidle hsettled hchild hparent
  | proposed ε ε' challenge before last hd hnext hP hC hwait hsettled hchild hbefore hlast hparent =>
    exact .proposed ε ε' challenge before last (hd.mono hn) (hnext.mono hn) hP hC (hwait.imp himp)
      hsettled hchild hbefore (hlast.imp himp) hparent
  | replied ε ε' challenge before last hd hnext hP hC hwait hwait' hchild hparent hbefore hlast =>
    exact .replied ε ε' challenge before last (hd.mono hn) (hnext.mono hn) hP hC (hwait.imp himp)
      (hwait'.imp himp) hchild hparent hbefore (hlast.imp himp)
  | committed ε ε' challenge hd hnext hP hC hwait hwait' hchild hparent =>
    exact .committed ε ε' challenge (hd.mono hn) (hnext.mono hn) hP hC (hwait.imp himp) (hwait'.imp himp)
      (hchild.imp himp) hparent
  | acked ε ε' challenge hd hnext hP hC hwait hsettled hchild hparent =>
    refine .acked ε ε' challenge (hd.mono hn) (hnext.mono hn) hP hC (hwait.imp himp) hsettled hchild ?_
    rcases hparent with hack | ⟨hlossy, ⟨f, hf, hack⟩, hrest⟩ | ⟨hlossy, hempty, hstuck, hold⟩
    · exact .inl hack
    · exact .inr (.inl ⟨himp hlossy, ⟨f, hrefused f hf, hack⟩, hrest⟩)
    · exact .inr (.inr ⟨himp hlossy, hempty, hstuck, fun f hf hack => hold f (hput f hf hack) hack⟩)

/-! ### Packets -/

/-- An end that can seal waits for nothing. -/
theorem Channel.Awaits.busy {challenge : ℕ} {stage : Stage} (h : c.Awaits lossy ε s challenge stage)
    (hlive : c.endpoint.closed = false) (hidle : c.pending = none) : False := by
  rcases h with ⟨_, hclosed⟩ | ⟨_, hpending⟩
  · rw [hlive] at hclosed
    cases hclosed
  · rw [hidle] at hpending
    cases hpending

theorem mem_concat {α : Type} {p : α → Prop} {l : List α} {a : α} (h : ∀ b ∈ l, p b) (ha : p a) :
    ∀ b ∈ l ++ [a], p b := by
  intro b hb
  rcases List.mem_append.mp hb with hb | hb
  · exact h b hb
  · exact List.mem_singleton.mp hb ▸ ha

/-- A frame outside a handshake that an idle parent puts into its pipe. -/
theorem Phase.parentPuts {f : Frame} (h : Phase K lossy put refused n P C tc tp)
    (hlive : P.endpoint.closed = false) (hidle : P.pending = none)
    (hf : ∀ ε, K.Placed ε .parent P → K.Ordinary ε .parent f) :
    Phase K lossy put refused n P C (tc ++ [f]) tp := by
  cases h with
  | settled ε hn hP hC _ hsettled hchild hparent =>
    exact .settled ε hn hP hC hidle hsettled (mem_concat hchild (hf ε hP)) hparent
  | proposed _ _ _ _ _ _ _ _ _ hwait => exact (hwait.busy hlive hidle).elim
  | replied _ _ _ _ _ _ _ _ _ hwait => exact (hwait.busy hlive hidle).elim
  | committed _ _ _ _ _ _ _ hwait => exact (hwait.busy hlive hidle).elim
  | acked _ _ _ _ _ _ _ hwait => exact (hwait.busy hlive hidle).elim

/-- A frame outside a handshake that an idle child puts into its pipe. -/
theorem Phase.childPuts {f : Frame} (h : Phase K lossy put refused n P C tc tp)
    (hlive : C.endpoint.closed = false) (hidle : C.pending = none)
    (hf : ∀ ε, K.Placed ε .child C → K.Ordinary ε .child f) :
    Phase K lossy put refused n P C tc (tp ++ [f]) := by
  cases h with
  | settled ε hn hP hC hidle hsettled hchild hparent =>
    exact .settled ε hn hP hC hidle hsettled hchild (mem_concat hparent (hf ε hC))
  | proposed ε ε' challenge before last hn hnext hP hC hwait hsettled hchild hbefore hlast hparent =>
    exact .proposed ε ε' challenge before last hn hnext hP hC hwait hsettled hchild hbefore hlast
      (mem_concat hparent (hf ε hC))
  | replied _ _ _ _ _ _ _ _ _ _ hwait => exact (hwait.busy hlive hidle).elim
  | committed _ _ _ _ _ _ _ _ hwait => exact (hwait.busy hlive hidle).elim
  | acked ε ε' challenge hn hnext hP hC hwait hsettled hchild hparent =>
    refine .acked ε ε' challenge hn hnext hP hC hwait hsettled hchild ?_
    rcases hparent with ⟨g, rest, rfl, hepoch, hdata, hrest⟩ | ⟨hlossy, hack, hrest⟩ |
        ⟨_, _, hstuck, _⟩
    · exact .inl ⟨g, rest ++ [f], rfl, hepoch, hdata, mem_concat hrest (hf ε' hC)⟩
    · exact .inr (.inl ⟨hlossy, hack, mem_concat hrest (hf ε' hC)⟩)
    · simp [hlive, hidle] at hstuck

theorem Ends.data {data : ControlData} {p : Packet} {l before last : List Frame}
    (h : Ends lossy ε data last) (heq : .data p :: l = before ++ last) :
    ∃ rest, before = .data p :: rest ∧ l = rest ++ last := by
  cases before with
  | nil => rcases h with ⟨f, _, _, rfl⟩ | ⟨_, rfl⟩ <;> cases heq
  | cons d rest =>
    obtain ⟨rfl, rfl⟩ := List.cons.inj heq
    exact ⟨rest, rfl, rfl⟩

/-- A packet that reaches the child is of its era. -/
theorem Phase.childTakes {p : Packet} (h : Phase K lossy put refused n P C (.data p :: tc) tp) :
    Phase K lossy put refused n P C tc tp ∧
      ∃ ε, K.Placed ε .parent P ∧ K.Placed ε .child C ∧ K.Carries ε .parent p := by
  cases h with
  | settled ε hn hP hC hidle hsettled hchild hparent =>
    obtain ⟨hp, hchild⟩ := List.forall_mem_cons.mp hchild
    exact ⟨.settled ε hn hP hC hidle hsettled hchild hparent, ε, hP, hC, hp⟩
  | proposed ε ε' challenge before last hn hnext hP hC hwait hsettled hchild hbefore hlast hparent =>
    obtain ⟨rest, rfl, rfl⟩ := hlast.data hchild
    obtain ⟨hp, hbefore⟩ := List.forall_mem_cons.mp hbefore
    exact ⟨.proposed ε ε' challenge rest last hn hnext hP hC hwait hsettled rfl hbefore hlast hparent,
      ε, hP, hC, hp⟩
  | replied _ _ _ _ _ _ _ _ _ _ _ hchild => cases hchild
  | committed _ _ _ _ _ _ _ _ _ hchild => rcases hchild with ⟨f, _, _, hchild⟩ | ⟨_, hchild⟩ <;> cases hchild
  | acked _ _ _ _ _ _ _ _ _ hchild => cases hchild

/-- A packet that reaches the parent is of its era, until it refused an acknowledgement. -/
theorem Phase.parentTakes {p : Packet} (h : Phase K lossy put refused n P C tc (.data p :: tp)) :
    Phase K lossy put refused n P C tc tp ∧
      ((∀ f ∈ refused, ¬f.isAck) →
        ∃ ε, K.Placed ε .parent P ∧ K.Placed ε .child C ∧ K.Carries ε .child p) := by
  cases h with
  | settled ε hn hP hC hidle hsettled hchild hparent =>
    obtain ⟨hp, hparent⟩ := List.forall_mem_cons.mp hparent
    exact ⟨.settled ε hn hP hC hidle hsettled hchild hparent, fun _ => ⟨ε, hP, hC, hp⟩⟩
  | proposed ε ε' challenge before last hn hnext hP hC hwait hsettled hchild hbefore hlast hparent =>
    obtain ⟨hp, hparent⟩ := List.forall_mem_cons.mp hparent
    exact ⟨.proposed ε ε' challenge before last hn hnext hP hC hwait hsettled hchild hbefore hlast
      hparent, fun _ => ⟨ε, hP, hC, hp⟩⟩
  | replied ε ε' challenge before last hn hnext hP hC hwait hwait' hchild hparent hbefore hlast =>
    obtain ⟨rest, rfl, rfl⟩ := hlast.data hparent
    obtain ⟨hp, hbefore⟩ := List.forall_mem_cons.mp hbefore
    exact ⟨.replied ε ε' challenge rest last hn hnext hP hC hwait hwait' hchild rfl hbefore hlast,
      fun _ => ⟨ε, hP, hC, hp⟩⟩
  | committed _ _ _ _ _ _ _ _ _ _ hparent => cases hparent
  | acked ε ε' challenge hn hnext hP hC hwait hsettled hchild hparent =>
    rcases hparent with ⟨f, rest, hhead, _⟩ | ⟨hlossy, ⟨f, hf, hack⟩, hrest⟩ | ⟨_, hempty, _⟩
    · cases hhead
    · obtain ⟨_, hrest⟩ := List.forall_mem_cons.mp hrest
      exact ⟨.acked ε ε' challenge hn hnext hP hC hwait hsettled hchild
        (.inr (.inl ⟨hlossy, ⟨f, hf, hack⟩, hrest⟩)), fun hnone => absurd hack (hnone f hf)⟩
    · cases hempty

/-! ### Control frames -/

/-- The frame `_control` signs. -/
def Channel.frame (c : Channel) (epoch : ℕ) (data : ControlData) (now : ℤ) : Control :=
  let identity := c.endpoint.localIdentity.body
  let body : ControlBody :=
    { boot := c.endpoint.boot, session := c.endpoint.session, sender := identity.peer
      receiver := c.remoteIdentity.body.peer, seq := c.controlSend + 1, issued := now
      expires := min (now + controlMs) identity.expires, epoch, data }
  ⟨body, ⟨c.endpoint.ed, body⟩⟩

/-- An end that signed a frame. -/
def Channel.signed (c : Channel) (now : ℤ) : Channel :=
  { c with endpoint := { c.endpoint with lastNow := now }, controlSend := c.controlSend + 1 }

theorem Channel.aside_signed (c : Channel) (now : ℤ) : c.Aside (c.signed now) :=
  ⟨_, _, _, _, _, .inl rfl, rfl⟩

theorem Channel.aside_now (c : Channel) (now : ℤ) :
    c.Aside { c with endpoint := { c.endpoint with lastNow := now } } :=
  ⟨_, _, _, _, _, .inl rfl, rfl⟩

theorem Channel.aside_halt (c : Channel) : c.Aside { c with endpoint := c.endpoint.halt } :=
  ⟨_, _, _, _, _, .inr rfl, rfl⟩

theorem wp_control {epoch : ℕ} {data : ControlData} {reading : Option ℤ}
    {Q : Control → Channel → Prop} {E : Failure → Channel → Prop}
    (h : ∀ now, Q (c.frame epoch data now) (c.signed now)) (hE : ∀ f c', c.Aside c' → E f c') :
    wp (Channel.control epoch data reading) Q E c := by
  simp only [Channel.control, wp_bind, wp_read, wp_check, wp_modify, onEndpoint, wp_zoom, wp_pure]
  refine ⟨fun _ => ?_, fun _ => hE _ _ (.refl c)⟩
  refine wp_now (fun now _ _ => h now) (fun _ => hE _ _ ?_) (fun _ => hE _ _ ?_)
  · exact ⟨_, _, _, _, _, .inl rfl, rfl⟩
  · exact ⟨_, _, _, _, _, .inr rfl, rfl⟩

/-- A call that starts with the gate and the clock runs on, or only bookkeeping changed. -/
theorem wp_entered {α : Type} {r : Reads} {m : ℤ → Op α} {Q : α → Channel → Prop}
    {E : Failure → Channel → Prop} (hE : ∀ f c', c.Aside c' → E f c')
    (h : ∀ now, c.endpoint.closed = false →
      wp (m now) Q E { c with endpoint := { c.endpoint with lastNow := now } }) :
    wp (do onEndpoint (Endpoint.require r.gate); let now ← onEndpoint (Endpoint.now r.first); m now)
      Q E c := by
  simp only [Endpoint.require, wp_bind, wp_read, wp_check, wp_ite, wp_pure, wp_modify, wp_raise,
    onEndpoint, wp_zoom]
  refine ⟨fun hopen => ⟨fun _ => ?_, fun _ => hE _ _ c.aside_halt⟩, fun _ => hE _ _ (.refl c)⟩
  rw [not_or, Bool.not_eq_true] at hopen
  exact wp_now (fun now _ _ => h now hopen.1) (fun _ => hE _ _ (.refl c)) fun _ => hE _ _ c.aside_halt

theorem Pairing.Placed.pends (h : K.Placed ε s c) (pending : Option Pending) :
    K.Placed ε s { c with pending } := { h with }

/-- The era a parent proposes; the child's half is drawn later. -/
def Pairing.proposal (K : Pairing) (prefixes : Prefixes) (ε : Era) (n : ℕ) (now : ℤ) : Era where
  number := ε.number + 1
  issued := now
  expires := min (now + K.rotationMs) (K.identity .parent).body.expires
  x := fun _ => some n
  noncePrefix := fun _ => prefixes n

theorem Pairing.next_proposal (hn : ε.Drawn n) (now : ℤ) :
    K.Next ε (K.proposal prefixes ε n now) (n + 2) := by
  refine ⟨rfl, sub_le_iff_le_add'.mpr (min_le_left _ _), fun s => ?_, fun s => ⟨n, by omega, rfl⟩⟩
  obtain ⟨m, hm, hx⟩ := hn s
  rw [hx]
  exact fun heq => hm.ne (Option.some.inj heq).symm

theorem Pairing.Placed.proposed (h : K.Placed ε .parent P) (hopen : P.endpoint.closed = false)
    (now : ℤ) : P.proposed prefixes n now = K.cert (K.proposal prefixes ε n now) .parent := by
  rw [Channel.proposed, (h.secrets hopen).2.2 rfl, h.boot, h.session, h.localIdentity, h.epoch,
    h.rotation]
  rfl

/-- An idle parent proposes. -/
theorem Phase.begins (h : Phase K lossy put refused n P C tc tp) (hopen : P.endpoint.closed = false)
    (hidle : P.pending = none) (clock clock' : Option ℤ) :
    wp (Channel.begin prefixes n clock clock')
      (fun f P' => Phase K lossy put refused (n + 2) P' C (tc ++ [.control f]) tp)
      (fun _ P' => Phase K True put refused (n + 2) P' C tc tp) P := by
  have hlost : Phase K True put refused (n + 2) P C tc tp :=
    h.mono (fun _ => trivial) (Nat.le_add_right _ _) (fun _ hf _ => hf) fun _ hf => hf
  simp only [Channel.begin, wp_bind, wp_read, wp_modify, onEndpoint, wp_zoom]
  refine wp_now (fun now _ _ => ?_) (fun _ => hlost) fun _ => hlost.keeps P.aside_halt.keeps (.refl C)
  cases h with
  | settled ε hn hP hC _ hsettled hchild hparent =>
    have hread : K.Placed ε .parent { P with endpoint := { P.endpoint with lastNow := now } } :=
      hP.aside (P.aside_now now)
    have hcert : Channel.proposed prefixes n _ now = _ := hread.proposed hopen now
    have hepoch : P.endpoint.epoch + 1 = (K.proposal prefixes ε n now).number := by
      rw [hP.epoch]
      rfl
    rw [hcert]
    have hplaced := hread.pends (some ⟨P.endpoint.epoch + 1, some n, n + 1, now + controlMs,
      .proposal (K.cert (K.proposal prefixes ε n now) .parent)⟩)
    have hwait : Channel.Awaits { P with
        endpoint := { P.endpoint with lastNow := now }
        pending := some ⟨P.endpoint.epoch + 1, some n, n + 1, now + controlMs,
          .proposal (K.cert (K.proposal prefixes ε n now) .parent)⟩ } lossy
        (K.proposal prefixes ε n now) .parent (n + 1)
        (.proposal (K.cert (K.proposal prefixes ε n now) .parent)) :=
      .inr ⟨now + controlMs, by rw [hepoch]; rfl⟩
    refine wp_control (fun now' => ?_) fun _ P' hP' => ?_
    · refine .proposed ε _ (n + 1) tc _ (hn.mono (by omega)) (Pairing.next_proposal hn now)
        (hplaced.aside (Channel.aside_signed _ now')) hC
        (hwait.keeps (K := K) (Channel.aside_signed _ now').keeps) hsettled rfl hchild
        (.inl ⟨_, hepoch, rfl, rfl⟩) hparent
    · refine .proposed ε _ (n + 1) tc [] (hn.mono (by omega)) (Pairing.next_proposal hn now)
        (hplaced.aside hP') hC ((hwait.imp fun _ => trivial).keeps (K := K) hP'.keeps)
        hsettled (List.append_nil _).symm hchild (.inr ⟨trivial, rfl⟩) hparent
  | proposed _ _ _ _ _ _ _ _ _ hwait => exact (hwait.busy hopen hidle).elim
  | replied _ _ _ _ _ _ _ _ _ hwait => exact (hwait.busy hopen hidle).elim
  | committed _ _ _ _ _ _ _ hwait => exact (hwait.busy hopen hidle).elim
  | acked _ _ _ _ _ _ _ hwait => exact (hwait.busy hopen hidle).elim

theorem Phase.atParent (h : Phase K lossy put refused n P C tc tp) : ∃ ε, K.Placed ε .parent P := by
  cases h with
  | settled ε _ hP => exact ⟨ε, hP⟩
  | proposed ε _ _ _ _ _ _ hP => exact ⟨ε, hP⟩
  | replied ε _ _ _ _ _ _ hP => exact ⟨ε, hP⟩
  | committed ε _ _ _ _ hP => exact ⟨ε, hP⟩
  | acked ε _ _ _ _ hP => exact ⟨ε, hP⟩

theorem Phase.atChild (h : Phase K lossy put refused n P C tc tp) : ∃ ε, K.Placed ε .child C := by
  cases h with
  | settled ε _ _ hC => exact ⟨ε, hC⟩
  | proposed ε _ _ _ _ _ _ _ hC => exact ⟨ε, hC⟩
  | replied ε _ _ _ _ _ _ _ hC => exact ⟨ε, hC⟩
  | committed ε _ _ _ _ _ hC => exact ⟨ε, hC⟩
  | acked _ ε' _ _ _ _ hC => exact ⟨ε', hC⟩

/-- Later draws do not matter. -/
theorem Phase.later (h : Phase K lossy put refused n P C tc tp) :
    Phase K lossy put refused (n + 2) P C tc tp :=
  h.mono id (Nat.le_add_right _ _) (fun _ hf _ => hf) fun _ hf => hf

theorem Phase.weaken (h : Phase K lossy put refused n P C tc tp) :
    Phase K True put refused n P C tc tp :=
  h.mono (fun _ => trivial) le_rfl (fun _ hf _ => hf) fun _ hf => hf

/-- `control_frames` of the parent: nothing, or its proposal. -/
theorem Phase.parentFrames (h : Phase K lossy put refused n P C tc tp) (r : Reads) :
    wp (Channel.controlFrames prefixes n r)
      (fun frames P' => Phase K lossy put refused (n + 2) P' C (tc ++ frames.map .control) tp)
      (fun _ P' => Phase K True put refused (n + 2) P' C tc tp) P := by
  refine wp_entered (fun _ P' hP' => h.later.weaken.keeps hP'.keeps (.refl C)) fun now hopen => ?_
  have hread := h.keeps (P.aside_now now).keeps (.refl C)
  simp only [wp_bind, wp_read, wp_check, wp_ite, wp_modify, wp_raise]
  refine ⟨fun _ => ⟨fun _ => ?_, fun _ => ?_⟩, fun _ => hread.later.weaken⟩
  · exact hread.later.weaken.keeps (.close _) (.refl C)
  simp only [Channel.renewal, wp_bind, wp_read, wp_ite, wp_pure, List.map_nil, List.append_nil]
  refine ⟨fun _ => hread.later, fun hdue => ⟨fun _ => ?_, fun hrole => ?_⟩⟩
  · rw [not_or, Option.not_isSome_iff_eq_none] at hdue
    exact hread.begins hopen hdue.2 _ _
  · obtain ⟨ε, hP⟩ := h.atParent
    exact absurd hP.role hrole

/-- `control_frames` of the child: nothing, or its request. -/
theorem Phase.childFrames (h : Phase K lossy put refused n P C tc tp) (r : Reads) :
    wp (Channel.controlFrames prefixes n r)
      (fun frames C' => Phase K lossy (put ++ frames) refused (n + 2) P C' tc
        (tp ++ frames.map .control))
      (fun _ C' => Phase K True put refused (n + 2) P C' tc tp) C := by
  refine wp_entered (fun _ C' hC' => h.later.weaken.keeps (.refl P) hC'.keeps) fun now hopen => ?_
  have hread := h.keeps (.refl P) (C.aside_now now).keeps
  obtain ⟨ε, hC⟩ := hread.atChild
  simp only [wp_bind, wp_read, wp_check, wp_ite, wp_modify, wp_raise]
  refine ⟨fun _ => ⟨fun _ => ?_, fun _ => ?_⟩, fun _ => hread.later.weaken⟩
  · exact hread.later.weaken.keeps (.refl P) (.close _)
  simp only [Channel.renewal, wp_bind, wp_read, wp_ite, wp_pure, wp_modify, List.map_nil,
    List.append_nil]
  refine ⟨fun _ => hread.later, fun hdue => ⟨fun hrole => ?_, fun _ => ⟨fun _ => hread.later,
    fun _ => ?_⟩⟩⟩
  · exact absurd (hrole.symm.trans hC.role) (by decide)
  rw [not_or, Option.not_isSome_iff_eq_none] at hdue
  have hrequested : Channel.Keeps K lossy { C with endpoint := { C.endpoint with lastNow := now } }
      { C with endpoint := { C.endpoint with lastNow := now }, requested := true } :=
    hC.keeps { hC with } ⟨rfl, rfl⟩
  have hasked := hread.keeps (.refl P) hrequested
  refine wp_control (fun now' => ?_) fun _ C' hC' => hasked.later.weaken.keeps (.refl P) hC'.keeps
  have hsigned := hasked.later.keeps (.refl P) (Channel.aside_signed _ now').keeps
  refine Phase.childPuts (hsigned.mono id le_rfl (fun f hf hack => ?_) fun _ hf => hf) hopen hdue.2 ?_
  · rcases List.mem_append.mp hf with hf | hf
    · exact hf
    · obtain rfl := List.mem_singleton.mp hf
      obtain ⟨_, hdata⟩ := hack
      cases hdata
  · exact fun ε hε => ⟨rfl, rfl, congrArg (· + 1) hε.epoch⟩

/-! ### The child accepts -/

theorem Ends.control {data : ControlData} {f : Control} {l before last : List Frame}
    (h : Ends lossy ε data last) (heq : .control f :: l = before ++ last) :
    (∃ rest, before = .control f :: rest ∧ l = rest ++ last) ∨
      before = [] ∧ l = [] ∧ f.body.epoch = ε.number ∧ f.body.data = data := by
  cases before with
  | nil =>
    rcases h with ⟨g, hepoch, hdata, rfl⟩ | ⟨_, rfl⟩
    · cases heq
      exact .inr ⟨rfl, rfl, hepoch, hdata⟩
    · cases heq
  | cons d rest =>
    obtain ⟨rfl, rfl⟩ := List.cons.inj heq
    exact .inl ⟨rest, rfl, rfl⟩

/-- A control frame that reaches the child is the proposal or the commit. -/
theorem Phase.childHead {f : Control} {motive : Prop}
    (h : Phase K lossy put refused n P C (.control f :: tc) tp)
    (hproposed : ∀ ε ε' challenge, ε.Drawn n → K.Next ε ε' n → K.Placed ε .parent P →
      K.Placed ε .child C →
      P.Awaits lossy ε' .parent challenge (.proposal (K.cert ε' .parent)) → C.Settled ε → tc = [] →
      f.body.epoch = ε'.number → f.body.data = .proposal (K.cert ε' .parent) challenge →
      (∀ f ∈ tp, K.Ordinary ε .child f) → motive)
    (hcommitted : ∀ ε ε' challenge, ε.Drawn n → K.Next ε ε' n → K.Placed ε .parent P →
      K.Placed ε .child C →
      P.Awaits lossy ε' .parent challenge (.commit (K.cert ε' .parent) (K.cert ε' .child)) →
      C.Awaits lossy ε' .child challenge (.reply (K.cert ε' .parent) (ε'.noncePrefix .child)) →
      tc = [] → f.body.epoch = ε'.number →
      f.body.data = .commit challenge (K.cert ε' .parent) (K.cert ε' .child) → tp = [] → motive) :
    motive := by
  cases h with
  | settled _ _ _ _ _ _ hchild => exact nomatch (hchild _ List.mem_cons_self).1
  | proposed ε ε' challenge before last hn hnext hP hC hwait hsettled hchild hbefore hlast hparent =>
    rcases hlast.control hchild with ⟨rest, rfl, _⟩ | ⟨rfl, rfl, hepoch, hdata⟩
    · exact nomatch (hbefore _ List.mem_cons_self).1
    · exact hproposed ε ε' challenge hn hnext hP hC hwait hsettled rfl hepoch hdata hparent
  | replied _ _ _ _ _ _ _ _ _ _ _ hchild => cases hchild
  | committed ε ε' challenge hn hnext hP hC hwait hwait' hchild hparent =>
    rcases hchild with ⟨g, hepoch, hdata, heq⟩ | ⟨_, heq⟩
    · cases heq
      exact hcommitted ε ε' challenge hn hnext hP hC hwait hwait' rfl hepoch hdata hparent
    · cases heq
  | acked _ _ _ _ _ _ _ _ _ hchild => cases hchild

/-- A control frame to the child may be lost. -/
theorem Phase.childDrops {f : Control} (h : Phase K lossy put refused n P C (.control f :: tc) tp) :
    Phase K True put refused n P C tc tp := by
  refine h.childHead ?_ ?_
  · rintro ε ε' challenge hn hnext hP hC hwait hsettled rfl _ _ hparent
    exact .proposed ε ε' challenge [] [] hn hnext hP hC (hwait.imp fun _ => trivial) hsettled rfl
      (fun _ hf => absurd hf List.not_mem_nil) (.inr ⟨trivial, rfl⟩) hparent
  · rintro ε ε' challenge hn hnext hP hC hwait hwait' rfl _ _ hparent
    exact .committed ε ε' challenge hn hnext hP hC (hwait.imp fun _ => trivial)
      (hwait'.imp fun _ => trivial) (.inr ⟨trivial, rfl⟩) hparent

/-- A request or a proposal is no frame of a handshake that is pending. -/
theorem wp_acceptPending_raises {now : ℤ} {b : ControlBody} {clock : Option ℤ}
    {Q : List Control → Channel → Prop} {E : Failure → Channel → Prop}
    (hdata : b.data = .request ∨ ∃ cert challenge, b.data = .proposal cert challenge)
    (hE : ∀ f, E f c) : wp (Channel.acceptPending now b clock) Q E c := by
  simp only [Channel.acceptPending, wp_bind, wp_read]
  split
  · exact hE _
  · rw [wp_bind, wp_check]
    refine ⟨fun _ => ?_, fun _ => hE _⟩
    rcases hdata with hdata | ⟨_, _, hdata⟩
    · rw [hdata]
      exact hE _
    · rw [hdata]
      exact hE _

/-- The era of a handshake with the half the child drew. -/
def Era.answered (ε : Era) (prefixes : Prefixes) (n : ℕ) : Era :=
  { ε with
    x := Function.update ε.x .child (some n)
    noncePrefix := Function.update ε.noncePrefix .child (prefixes n) }

theorem Pairing.next_answered (hn : ε.Drawn n) (h : K.Next ε ε' n) :
    K.Next ε (ε'.answered prefixes n) (n + 2) := by
  refine ⟨h.number, h.lifetime, fun s => ?_, fun s => ?_⟩
  · cases s with
    | parent => exact h.fresh .parent
    | child =>
      obtain ⟨m, hm, hx⟩ := hn .child
      rw [hx]
      exact fun heq => hm.ne (Option.some.inj heq).symm
  · cases s with
    | parent => exact (h.drawn.mono (by omega)) .parent
    | child => exact ⟨n, by omega, rfl⟩

/-- The child takes the proposal, and replies. -/
theorem Phase.acceptsProposal {challenge : ℕ} {now : ℤ} {clock : Option ℤ} {f : Control}
    (h : Phase K lossy put refused n P C (.control f :: tc) tp) (hn : ε.Drawn n)
    (hnext : K.Next ε ε' n) (hP : K.Placed ε .parent P) (hC : K.Placed ε .child C)
    (hwait : P.Awaits lossy ε' .parent challenge (.proposal (K.cert ε' .parent)))
    (htc : tc = []) (hparent : ∀ f ∈ tp, K.Ordinary ε .child f) :
    wp (Channel.acceptProposal prefixes n now ε'.number (K.cert ε' .parent) challenge clock)
      (fun frames C' => Phase K lossy (put ++ frames) refused (n + 2) P C' tc
        (tp ++ frames.map .control))
      (fun _ C' => Phase K True put refused (n + 2) P C' tc tp) C := by
  have hdrop := h.childDrops.later
  have hnext' : K.Next _ (ε'.answered prefixes n) _ := Pairing.next_answered hn hnext
  have hcert : K.cert (ε'.answered prefixes n) .parent = K.cert ε' .parent := rfl
  simp only [Channel.acceptProposal, wp_bind, wp_read, wp_check, wp_lift, wp_modify, wp_pure]
  refine ⟨fun cert _ => ⟨fun _ => ⟨fun _ => ?_, fun _ => hdrop⟩, fun _ => hdrop⟩, fun _ _ => hdrop⟩
  have hplaced := hC.pends (some ⟨ε'.number, some n, challenge, now + controlMs,
    .reply (K.cert ε' .parent) (prefixes n)⟩)
  have hreply : Channel.Awaits { C with
      pending := some ⟨ε'.number, some n, challenge, now + controlMs,
        .reply (K.cert ε' .parent) (prefixes n)⟩ } lossy (ε'.answered prefixes n) .child challenge
      (.reply (K.cert (ε'.answered prefixes n) .parent)
        ((ε'.answered prefixes n).noncePrefix .child)) := .inr ⟨_, rfl⟩
  refine wp_control (fun now' => ?_) fun _ C' hC' => ?_
  · refine .replied ε (ε'.answered prefixes n) challenge tp _ (hn.mono (by omega)) hnext' hP
      (hplaced.aside (Channel.aside_signed _ now')) hwait
      (hreply.keeps (K := K) (Channel.aside_signed _ now').keeps) htc rfl hparent
      (.inl ⟨_, rfl, rfl, rfl⟩)
  · refine .replied ε (ε'.answered prefixes n) challenge tp [] (hn.mono (by omega)) hnext' hP
      (hplaced.aside hC') (hwait.imp fun _ => trivial)
      ((hreply.imp fun _ => trivial).keeps (K := K) hC'.keeps) htc (List.append_nil _).symm hparent
      (.inr ⟨trivial, rfl⟩)

/-- The child takes the keys of the commit, and acknowledges. -/
theorem Phase.acceptsCommit {challenge : ℕ} {now : ℤ} {clock : Option ℤ} {f : Control} {p : Pending}
    (hp : p.epoch = ε'.number ∧ p.exchange = ε'.x .child ∧ p.challenge = challenge) (h : Phase K lossy put refused n P C (.control f :: tc) tp) (hn : ε.Drawn n)
    (hnext : K.Next ε ε' n) (hP : K.Placed ε .parent P) (hC : K.Placed ε .child C)
    (hwait : P.Awaits lossy ε' .parent challenge
      (.commit (K.cert ε' .parent) (K.cert ε' .child)))
    (hbound : ε'.number < 2 ^ 63) (hold : ∀ g ∈ put, g.isAck → g.body.epoch ≤ ε.number)
    (htc : tc = []) (htp : tp = []) :
    wp (Channel.acceptCommit now p (K.cert ε' .parent) (ε'.noncePrefix .child) challenge
        (K.cert ε' .parent) (K.cert ε' .child) clock)
      (fun frames C' => Phase K lossy (put ++ frames) refused (n + 2) P C' tc
        (tp ++ frames.map .control))
      (fun _ C' => Phase K True put refused (n + 2) P C' tc tp) C := by
  have hdrop := h.childDrops.later
  simp only [Channel.acceptCommit, wp_bind, wp_read, wp_check, wp_lift, wp_modify, wp_pure]
  refine ⟨fun _ => ⟨fun cert _ => ⟨fun _ => ?_, fun _ => hdrop⟩, fun _ _ => hdrop⟩, fun _ => hdrop⟩
  obtain ⟨hepoch, hx, hchallenge⟩ := hp
  have hinstalled : K.Placed ε' .child (C.install p (K.cert ε' .child) (K.cert ε' .parent)) :=
    hC.install hepoch hx hbound hnext.lifetime
  have hplaced := hinstalled.pends (some { p with stage := .ack (K.cert ε' .child) (K.cert ε' .parent) })
  have hsettled : Channel.Settled { C.install p (K.cert ε' .child) (K.cert ε' .parent) with
      pending := some { p with stage := .ack (K.cert ε' .child) (K.cert ε' .parent) } } ε' := by
    rintro q ⟨⟩
    exact ⟨hepoch, rfl⟩
  refine wp_control (fun now' => ?_) fun _ C' hC' => ?_
  · refine .acked ε ε' challenge (hn.mono (by omega)) (hnext.mono (by omega)) hP
      (hplaced.aside (Channel.aside_signed _ now')) hwait
      (hsettled.keeps ((Channel.aside_signed _ now').keeps : Channel.Keeps K lossy _ _)) htc ?_
    rw [htp]
    exact .inl ⟨_, [], rfl, hepoch, congrArg ControlData.ack hchallenge,
      fun _ hg => absurd hg List.not_mem_nil⟩
  · refine .acked ε ε' challenge (hn.mono (by omega)) (hnext.mono (by omega)) hP
      (hplaced.aside hC') (hwait.imp fun _ => trivial)
      (hsettled.keeps (hC'.keeps : Channel.Keeps K lossy _ _)) htc ?_
    refine .inr (.inr ⟨trivial, htp, .inr ?_, fun g hg hack heq => ?_⟩)
    · obtain ⟨_, _, _, _, _, _, rfl⟩ := hC'
      rfl
    · have := hold g hg hack
      have := hnext.number
      omega

/-- What the child makes of a control frame that was admitted. -/
theorem Phase.childReacts {f : Control} (h : Phase K lossy put refused n P C (.control f :: tc) tp)
    (hopen : C.endpoint.closed = false) (hbound : f.body.epoch < 2 ^ 63)
    (hold : ∀ g ∈ put, g.isAck → g.body.epoch ≤ C.endpoint.epoch) (r : Reads) (now : ℤ) :
    wp (Channel.react prefixes n r now f.body)
      (fun frames C' => Phase K lossy (put ++ frames) refused (n + 2) P C' tc
        (tp ++ frames.map .control))
      (fun _ C' => Phase K True put refused (n + 2) P C' tc tp) C := by
  have hdrop := h.childDrops.later
  refine h.childHead ?_ ?_
  · intro ε ε' challenge hn hnext hP hC hwait _ htc hepoch hdata hparent
    simp only [Channel.react, wp_bind, wp_read, hdata, hepoch, wp_ite]
    refine ⟨fun _ => h.acceptsProposal hn hnext hP hC hwait htc hparent, fun _ => ?_⟩
    exact wp_acceptPending_raises (.inr ⟨_, _, hdata⟩) fun _ => hdrop
  · intro ε ε' challenge hn hnext hP hC hwait hwait' htc hepoch hdata htp
    rw [hepoch] at hbound
    rw [hC.epoch] at hold
    rcases hwait' with ⟨_, hclosed⟩ | ⟨deadline, hpending⟩
    · exact absurd hclosed (hopen ▸ Bool.false_ne_true)
    simp only [Channel.react, Channel.acceptPending, wp_bind, wp_read, wp_check, hdata, hpending]
    refine ⟨fun _ => ?_, fun _ => hdrop⟩
    have hrole : C.isParent = false := hC.role
    rw [hrole]
    exact Phase.acceptsCommit ⟨rfl, rfl, rfl⟩ h hn hnext hP hC hwait hbound hold htc htp

/-- `accept_control` of the child. -/
theorem Phase.childAccepts {f : Control} (h : Phase K lossy put refused n P C (.control f :: tc) tp)
    (hold : ∀ g ∈ put, g.isAck → g.body.epoch ≤ C.endpoint.epoch) (r : Reads) :
    wp (Channel.acceptControl prefixes n r f)
      (fun frames C' => Phase K lossy (put ++ frames) refused (n + 2) P C' tc
        (tp ++ frames.map .control))
      (fun _ C' => Phase K True put refused (n + 2) P C' tc tp) C := by
  have hdrop := h.childDrops.later
  refine wp_entered (fun _ C' hC' => hdrop.keeps (.refl P) hC'.keeps) fun now hopen => ?_
  have hread := hdrop.keeps (.refl P) (C.aside_now now).keeps
  simp only [wp_bind, wp_read, wp_check, wp_modify]
  refine ⟨fun hexpects => ⟨fun _ => ?_, fun _ => hread⟩, fun _ => hread⟩
  have haside : C.Aside { C with
      endpoint := { C.endpoint with lastNow := now }
      controlReceived := f.body.seq } := ⟨_, _, _, _, _, .inl rfl, rfl⟩
  exact (h.keeps (.refl P) haside.keeps).childReacts hopen hexpects.2.2.2.2.2.1 hold r now

/-! ### The parent accepts -/

/-- A control frame that reaches the parent is a request, the reply or the acknowledgement. -/
theorem Phase.parentHead {f : Control} {motive : Prop}
    (h : Phase K lossy put refused n P C tc (.control f :: tp))
    (hrequest : f.body.data = .request → Phase K lossy put refused n P C tc tp → motive)
    (hreplied : ∀ ε ε' challenge, ε.Drawn n → K.Next ε ε' n → K.Placed ε .parent P →
      K.Placed ε .child C → P.Awaits lossy ε' .parent challenge (.proposal (K.cert ε' .parent)) →
      C.Awaits lossy ε' .child challenge (.reply (K.cert ε' .parent) (ε'.noncePrefix .child)) →
      tc = [] → tp = [] → f.body.epoch = ε'.number →
      f.body.data = .reply challenge (ε'.x .child) (ε'.noncePrefix .child) → motive)
    (hacked : ∀ ε ε' challenge, ε.Drawn n → K.Next ε ε' n → K.Placed ε .parent P →
      K.Placed ε' .child C →
      P.Awaits lossy ε' .parent challenge (.commit (K.cert ε' .parent) (K.cert ε' .child)) →
      C.Settled ε' → tc = [] → f.body.epoch = ε'.number → f.body.data = .ack challenge →
      (∀ g ∈ tp, K.Ordinary ε' .child g) → motive) : motive := by
  cases h with
  | settled ε hn hP hC hidle hsettled hchild hparent =>
    obtain ⟨hf, hparent⟩ := List.forall_mem_cons.mp hparent
    exact hrequest hf.2.1 (.settled ε hn hP hC hidle hsettled hchild hparent)
  | proposed ε ε' challenge before last hn hnext hP hC hwait hsettled hchild hbefore hlast hparent =>
    obtain ⟨hf, hparent⟩ := List.forall_mem_cons.mp hparent
    exact hrequest hf.2.1 (.proposed ε ε' challenge before last hn hnext hP hC hwait hsettled hchild
      hbefore hlast hparent)
  | replied ε ε' challenge before last hn hnext hP hC hwait hwait' hchild hparent hbefore hlast =>
    rcases hlast.control hparent with ⟨rest, rfl, rfl⟩ | ⟨rfl, rfl, hepoch, hdata⟩
    · obtain ⟨hf, hbefore⟩ := List.forall_mem_cons.mp hbefore
      exact hrequest hf.2.1 (.replied ε ε' challenge rest last hn hnext hP hC hwait hwait' hchild rfl
        hbefore hlast)
    · exact hreplied ε ε' challenge hn hnext hP hC hwait hwait' hchild rfl hepoch hdata
  | committed _ _ _ _ _ _ _ _ _ _ hparent => cases hparent
  | acked ε ε' challenge hn hnext hP hC hwait hsettled hchild hparent =>
    rcases hparent with ⟨g, rest, hhead, hepoch, hdata, hrest⟩ | ⟨hlossy, hack, hrest⟩ |
        ⟨_, hempty, _⟩
    · cases hhead
      exact hacked ε ε' challenge hn hnext hP hC hwait hsettled hchild hepoch hdata hrest
    · obtain ⟨hf, hrest⟩ := List.forall_mem_cons.mp hrest
      exact hrequest hf.2.1 (.acked ε ε' challenge hn hnext hP hC hwait hsettled hchild
        (.inr (.inl ⟨hlossy, hack, hrest⟩)))
    · cases hempty

/-- A control frame to the parent may be refused. -/
theorem Phase.parentDrops {f : Control} (h : Phase K lossy put refused n P C tc (.control f :: tp)) :
    Phase K True put (refused ++ [f]) n P C tc tp := by
  refine h.parentHead ?_ ?_ ?_
  · intro _ hrest
    exact hrest.mono (fun _ => trivial) le_rfl (fun _ hf _ => hf) fun _ hf => List.mem_append_left _ hf
  · rintro ε ε' challenge hn hnext hP hC hwait hwait' htc rfl _ _
    exact .replied ε ε' challenge [] [] hn hnext hP hC (hwait.imp fun _ => trivial)
      (hwait'.imp fun _ => trivial) htc rfl (fun _ hg => absurd hg List.not_mem_nil)
      (.inr ⟨trivial, rfl⟩)
  · rintro ε ε' challenge hn hnext hP hC hwait hsettled htc _ hdata hrest
    exact .acked ε ε' challenge hn hnext hP hC (hwait.imp fun _ => trivial) hsettled htc
      (.inr (.inl ⟨trivial, ⟨f, List.mem_append_right _ List.mem_cons_self, _, hdata⟩, hrest⟩))

/-- The parent takes the reply, and commits. -/
theorem Phase.acceptsReply {challenge : ℕ} {clock : Option ℤ} {f : Control} {p : Pending}
    (hp : ∃ deadline, p = ⟨ε'.number, ε'.x .parent, challenge, deadline,
      .proposal (K.cert ε' .parent)⟩)
    (h : Phase K lossy put refused n P C tc (.control f :: tp)) (hopen : P.endpoint.closed = false)
    (hn : ε.Drawn n) (hnext : K.Next ε ε' n) (hP : K.Placed ε .parent P) (hC : K.Placed ε .child C)
    (hwait' : C.Awaits lossy ε' .child challenge
      (.reply (K.cert ε' .parent) (ε'.noncePrefix .child))) (htc : tc = []) (htp : tp = []) :
    wp (Channel.acceptReply p (K.cert ε' .parent) challenge (ε'.x .child) (ε'.noncePrefix .child) clock)
      (fun frames P' => Phase K lossy put refused (n + 2) P' C (tc ++ frames.map .control) tp)
      (fun _ P' => Phase K True put (refused ++ [f]) (n + 2) P' C tc tp) P := by
  have hdrop := h.parentDrops.later
  obtain ⟨deadline, rfl⟩ := hp
  have hcert : epochCert P.ca P.endpoint.boot P.endpoint.session P.remoteIdentity (ε'.x .child)
      (ε'.noncePrefix .child) ε'.number (K.cert ε' .parent).body.issued
      (K.cert ε' .parent).body.expires = K.cert ε' .child := by
    rw [(hP.secrets hopen).2.2 rfl, hP.boot, hP.session, hP.remoteIdentity]
    rfl
  simp only [Channel.acceptReply, wp_bind, wp_read, wp_check, wp_modify, wp_pure, hcert]
  refine ⟨fun _ => ⟨fun _ => ?_, fun _ => hdrop⟩, fun _ => hdrop⟩
  have hplaced := hP.pends (some ⟨ε'.number, ε'.x .parent, challenge, deadline,
    .commit (K.cert ε' .parent) (K.cert ε' .child)⟩)
  have hwait : Channel.Awaits { P with
      pending := some ⟨ε'.number, ε'.x .parent, challenge, deadline,
        .commit (K.cert ε' .parent) (K.cert ε' .child)⟩ } lossy ε' .parent challenge
      (.commit (K.cert ε' .parent) (K.cert ε' .child)) := .inr ⟨_, rfl⟩
  refine wp_control (fun now' => ?_) fun _ P' hP' => ?_
  · refine .committed ε ε' challenge (hn.mono (by omega)) (hnext.mono (by omega))
      (hplaced.aside (Channel.aside_signed _ now')) hC
      (hwait.keeps (K := K) (Channel.aside_signed _ now').keeps) hwait' ?_ htp
    rw [htc]
    exact .inl ⟨_, rfl, rfl, rfl⟩
  · exact .committed ε ε' challenge (hn.mono (by omega)) (hnext.mono (by omega))
      (hplaced.aside hP') hC ((hwait.imp fun _ => trivial).keeps (K := K) hP'.keeps)
      (hwait'.imp fun _ => trivial) (.inr ⟨trivial, htc⟩) htp

/-- The parent takes the acknowledgement, and the keys. -/
theorem Phase.acceptsAck {challenge : ℕ} {f : Control} {p : Pending}
    (hp : p.epoch = ε'.number ∧ p.exchange = ε'.x .parent)
    (h : Phase K lossy put refused n P C tc (.control f :: tp)) (hnext : K.Next ε ε' n)
    (hP : K.Placed ε .parent P) (hC : K.Placed ε' .child C) (hsettled : C.Settled ε') (htc : tc = [])
    (hrest : ∀ g ∈ tp, K.Ordinary ε' .child g) :
    wp (Channel.acceptAck p (K.cert ε' .parent) (K.cert ε' .child) challenge)
      (fun frames P' => Phase K lossy put refused (n + 2) P' C (tc ++ frames.map .control) tp)
      (fun _ P' => Phase K True put (refused ++ [f]) (n + 2) P' C tc tp) P := by
  have hdrop := h.parentDrops.later
  simp only [Channel.acceptAck, wp_bind, wp_check, wp_modify, wp_pure]
  refine ⟨fun _ => ?_, fun _ => hdrop⟩
  have hplaced : K.Placed ε' .parent (P.install p (K.cert ε' .parent) (K.cert ε' .child)) :=
    hP.install hp.1 hp.2 hC.bound hC.lifetime
  refine .settled ε' (hnext.drawn.mono (by omega)) (hplaced.pends none) hC rfl hsettled ?_ hrest
  rw [htc]
  exact fun _ hg => absurd hg List.not_mem_nil

/-- What the parent makes of a control frame that was admitted. -/
theorem Phase.parentReacts {f : Control} (h : Phase K lossy put refused n P C tc (.control f :: tp))
    (hopen : P.endpoint.closed = false) (r : Reads) (now : ℤ) :
    wp (Channel.react prefixes n r now f.body)
      (fun frames P' => Phase K lossy put refused (n + 2) P' C (tc ++ frames.map .control) tp)
      (fun _ P' => Phase K True put (refused ++ [f]) (n + 2) P' C tc tp) P := by
  have hdrop := h.parentDrops.later
  have hrole : P.isParent = true := by
    obtain ⟨ε, hP⟩ := h.atParent
    exact hP.role
  refine h.parentHead ?_ ?_ ?_
  · intro hdata hrest
    simp only [Channel.react, wp_bind, wp_read, hdata, wp_ite, wp_pure, List.map_nil, List.append_nil]
    refine ⟨fun _ => ⟨fun _ => hrest.later, fun hidle => ?_⟩,
      fun _ => wp_acceptPending_raises (.inl hdata) fun _ => hdrop⟩
    rw [Option.not_isSome_iff_eq_none] at hidle
    exact wp_mono (hrest.begins hopen hidle _ _) (fun _ _ hbegun => hbegun) fun _ _ hlost =>
      hlost.mono id le_rfl (fun _ hf _ => hf) fun _ hf => List.mem_append_left _ hf
  · intro ε ε' challenge hn hnext hP hC hwait hwait' htc htp hepoch hdata
    rcases hwait with ⟨_, hclosed⟩ | ⟨deadline, hpending⟩
    · exact absurd hclosed (hopen ▸ Bool.false_ne_true)
    simp only [Channel.react, Channel.acceptPending, wp_bind, wp_read, wp_check, hdata, hpending]
    refine ⟨fun _ => ?_, fun _ => hdrop⟩
    rw [hrole]
    exact Phase.acceptsReply ⟨deadline, rfl⟩ h hopen hn hnext hP hC hwait' htc htp
  · intro ε ε' challenge hn hnext hP hC hwait hsettled htc hepoch hdata hrest
    rcases hwait with ⟨_, hclosed⟩ | ⟨deadline, hpending⟩
    · exact absurd hclosed (hopen ▸ Bool.false_ne_true)
    simp only [Channel.react, Channel.acceptPending, wp_bind, wp_read, wp_check, hdata, hpending]
    refine ⟨fun _ => ?_, fun _ => hdrop⟩
    rw [hrole]
    exact Phase.acceptsAck ⟨rfl, rfl⟩ h hnext hP hC hsettled htc hrest

/-- `accept_control` of the parent. -/
theorem Phase.parentAccepts {f : Control} (h : Phase K lossy put refused n P C tc (.control f :: tp))
    (r : Reads) :
    wp (Channel.acceptControl prefixes n r f)
      (fun frames P' => Phase K lossy put refused (n + 2) P' C (tc ++ frames.map .control) tp)
      (fun _ P' => Phase K True put (refused ++ [f]) (n + 2) P' C tc tp) P := by
  have hdrop := h.parentDrops.later
  refine wp_entered (fun _ P' hP' => hdrop.keeps hP'.keeps (.refl C)) fun now hopen => ?_
  have hread := hdrop.keeps (P.aside_now now).keeps (.refl C)
  simp only [wp_bind, wp_read, wp_check, wp_modify]
  refine ⟨fun hexpects => ⟨fun _ => ?_, fun _ => hread⟩, fun _ => hread⟩
  have haside : P.Aside { P with
      endpoint := { P.endpoint with lastNow := now }
      controlReceived := f.body.seq } := ⟨_, _, _, _, _, .inl rfl, rfl⟩
  exact (h.keeps haside.keeps (.refl C)).parentReacts hopen r now

/-! ### The acknowledgement was put -/

theorem controlSent_eq {f : Control} : c.controlSent f = c ∨
    f.isAck ∧ (∃ p, c.pending = some p ∧ p.stage.isAck = true) ∧ c.isParent = false ∧
      c.controlSent f = { c with pending := none } := by
  rw [Channel.controlSent]
  split
  · rename_i challenge hdata
    split
    · rename_i hcond
      obtain ⟨p, hp, hack⟩ := (Option.any_eq_true _ _).mp hcond.2
      exact .inr ⟨⟨challenge, hdata⟩, ⟨p, hp, hack⟩, Bool.eq_false_iff.mpr hcond.1, rfl⟩
    · exact .inl rfl
  · exact .inl rfl

theorem settled_none : Channel.Settled { c with pending := none } ε := fun p hp =>
  absurd hp (Option.not_mem_none p)

/-- A child that need not wait for its acknowledgement any more. -/
theorem Phase.released (h : Phase K lossy put refused n P C tc tp) {p : Pending}
    (hp : C.pending = some p) (hack : p.stage.isAck = true) {f : Control} (hf : f ∈ put)
    (hfack : f.isAck) (hepoch : f.body.epoch = p.epoch) :
    Phase K lossy put refused n P { C with pending := none } tc tp := by
  have hdead {ε challenge stage} (hstage : stage.isAck = false)
      (h : C.Awaits lossy ε .child challenge stage) :
      Channel.Awaits { C with pending := none } lossy ε .child challenge stage := by
    rcases h with hclosed | ⟨_, hpending⟩
    · exact .inl hclosed
    · rw [hp] at hpending
      obtain rfl := Option.some.inj hpending
      rw [hstage] at hack
      cases hack
  cases h with
  | settled ε hn hP hC hidle hsettled hchild hparent =>
    exact .settled ε hn hP (hC.pends none) hidle settled_none hchild hparent
  | proposed ε ε' challenge before last hn hnext hP hC hwait hsettled hchild hbefore hlast hparent =>
    exact .proposed ε ε' challenge before last hn hnext hP (hC.pends none) hwait settled_none hchild hbefore
      hlast hparent
  | replied ε ε' challenge before last hn hnext hP hC hwait hwait' hchild hparent hbefore hlast =>
    exact .replied ε ε' challenge before last hn hnext hP (hC.pends none) hwait (hdead rfl hwait')
      hchild hparent hbefore hlast
  | committed ε ε' challenge hn hnext hP hC hwait hwait' hchild hparent =>
    exact .committed ε ε' challenge hn hnext hP (hC.pends none) hwait (hdead rfl hwait') hchild hparent
  | acked ε ε' challenge hn hnext hP hC hwait hsettled hchild hparent =>
    refine .acked ε ε' challenge hn hnext hP (hC.pends none) hwait settled_none hchild ?_
    rcases hparent with hhead | hrefused | ⟨_, _, _, hnone⟩
    · exact .inl hhead
    · exact .inr (.inl hrefused)
    · exact absurd (hepoch.trans (hsettled p hp).1) (hnone f hf hfack)

theorem Phase.childSent (h : Phase K lossy put refused n P C tc tp) {f : Control} (hf : f ∈ put)
    (hsent : f.isAck → ∀ p ∈ C.pending, p.stage.isAck = true → f.body.epoch = p.epoch) :
    Phase K lossy put refused n P (C.controlSent f) tc tp := by
  rcases controlSent_eq (c := C) (f := f) with heq | ⟨hfack, ⟨p, hp, hack⟩, _, heq⟩
  · rwa [heq]
  · rw [heq]
    exact h.released hp hack hf hfack (hsent hfack p hp hack)

theorem Phase.parentSent (h : Phase K lossy put refused n P C tc tp) (f : Control) :
    Phase K lossy put refused n (P.controlSent f) C tc tp := by
  obtain ⟨ε, hP⟩ := h.atParent
  rcases controlSent_eq (c := P) (f := f) with heq | ⟨_, _, hrole, _⟩
  · rwa [heq]
  · rw [hP.role] at hrole
    cases hrole

end Phases

end Angerona.Mesh
