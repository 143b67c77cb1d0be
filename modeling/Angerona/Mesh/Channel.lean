import Angerona.Mesh.Endpoint

/-!
    The cross-process channel.

    Two endpoints that share a session rekey by a signed handshake: the parent proposes, the child
    replies, the parent commits, the child acknowledges. The child takes the new keys with the
    commit, the parent with the acknowledgement. Each operation is an effect under its readings of
    the clock and the gate; `n` is the number its fresh key and challenge are drawn at. -/

namespace Angerona.Mesh
open Text Effect

/-! ### Frames -/

/-- The type of a control frame with its data. -/
inductive ControlData where
  | request
  | proposal (certificate : Cert) (challenge : ℕ)
  | reply (challenge : ℕ) (x25519 : Secret) (noncePrefix : BitVec 32)
  | commit (challenge : ℕ) (parentCertificate childCertificate : Cert)
  | ack (challenge : ℕ)
  deriving DecidableEq

structure ControlBody where
  boot : ℕ
  session : ℕ
  sender : ℕ
  receiver : ℕ
  seq : ℕ
  issued : ℤ
  expires : ℤ
  epoch : ℕ
  data : ControlData
  deriving DecidableEq

structure Control where
  body : ControlBody
  signature : Signature ControlBody
  deriving DecidableEq

/-! ### Channels -/

/-- How far a handshake is, with the certificates that are known. -/
inductive Stage where
  | proposal (localCert : Cert)
  | commit (localCert remoteCert : Cert)
  | reply (remoteCert : Cert) (noncePrefix : BitVec 32)
  | ack (localCert remoteCert : Cert)

/-- `_pending`. -/
structure Pending where
  epoch : ℕ
  exchange : Secret
  challenge : ℕ
  deadline : ℤ
  stage : Stage

/-- `CrossProcessMeshChannel`. -/
structure Channel where
  endpoint : Endpoint
  remoteIdentity : Cert
  remoteCert : Cert
  /-- The key of the authority; only the parent has it. -/
  ca : Secret
  isParent : Bool
  controlSend : ℕ
  controlReceived : ℕ
  pending : Option Pending
  requested : Bool

abbrev Op (α : Type) := Effect Failure Channel α

def controlMs : ℤ := 5000

/-- What an operation reads: the gate once, the clock up to three times. -/
structure Reads where
  gate : Gate
  first : Option ℤ
  second : Option ℤ
  third : Option ℤ

def onEndpoint {α : Type} (m : Effect Failure Endpoint α) : Op α :=
  zoom Channel.endpoint (fun e c => { c with endpoint := e }) m

/-- `min(1000, self._rotation_ms // 4)`. -/
def Channel.quiesce (c : Channel) : ℤ := min 1000 (c.endpoint.rotationMs / 4 : ℕ)

/-- `close`. -/
def Channel.close (c : Channel) : Channel :=
  { c with endpoint := c.endpoint.close, pending := none, ca := none }

/-- `seal`. -/
def Channel.seal (r : Reads) (payload : List UInt8) (purpose : Str) : Op Packet := do
  let c ← read
  check c.pending.isNone quiescing
  let now ← onEndpoint (Endpoint.now r.first)
  check (now + c.quiesce < c.endpoint.expires) quiescing
  onEndpoint (Endpoint.seal r.gate r.second payload c.remoteCert purpose)
where
  quiescing : Failure := .handshake "Mesh is quiescing for a fresh epoch"

/-- `open`. -/
def Channel.open (r : Reads) (envelope : Envelope) (purpose : Str) : Op (List UInt8) := do
  let c ← read
  onEndpoint (Endpoint.open r.gate r.first envelope c.remoteCert purpose)

/-- `_control`. -/
def Channel.control (epoch : ℕ) (data : ControlData) (reading : Option ℤ) : Op Control := do
  let c ← read
  check (c.controlSend < 2 ^ 63 - 1) (.mesh "Mesh control sequence limit reached")
  modify fun c => { c with controlSend := c.controlSend + 1 }
  let now ← onEndpoint (Endpoint.now reading)
  let c ← read
  let identity := c.endpoint.localIdentity.body
  let body : ControlBody :=
    { boot := c.endpoint.boot, session := c.endpoint.session, sender := identity.peer
      receiver := c.remoteIdentity.body.peer, seq := c.controlSend, issued := now
      expires := min (now + controlMs) identity.expires, epoch, data }
  pure ⟨body, ⟨c.endpoint.ed, body⟩⟩

/-- `_epoch_cert`. -/
def epochCert (ca : Secret) (boot session : ℕ) (identity : Cert) (exchange : Secret)
    (noncePrefix : BitVec 32) (epoch : ℕ) (issued expires : ℤ) : Cert :=
  issue ca
    { kind := .epoch, boot, session, peer := identity.body.peer, label := identity.body.label
      sourceDigest := identity.body.sourceDigest, epoch, issued, expires
      ed25519 := identity.body.ed25519, x25519 := exchange, noncePrefix }

section Handshake

variable (prefixes : ℕ → BitVec 32) (n : ℕ)

/-- The certificate `_begin` proposes. -/
def Channel.proposed (c : Channel) (now : ℤ) : Cert :=
  epochCert c.ca c.endpoint.boot c.endpoint.session c.endpoint.localIdentity (some n) (prefixes n)
    (c.endpoint.epoch + 1) now
    (min (now + c.endpoint.rotationMs) c.endpoint.localIdentity.body.expires)

/-- `_begin`. -/
def Channel.begin (clock clock' : Option ℤ) : Op Control := do
  let now ← onEndpoint (Endpoint.now clock)
  let c ← read
  let epoch := c.endpoint.epoch + 1
  let cert := c.proposed prefixes n now
  modify fun c => { c with
    pending := some ⟨epoch, some n, n + 1, now + controlMs, .proposal cert⟩ }
  Channel.control epoch (.proposal cert (n + 1)) clock'

/-- The end of `control_frames`: a proposal or a request, when the epoch is about to end. -/
def Channel.renewal (r : Reads) (now : ℤ) : Op (List Control) := do
  let c ← read
  if now + c.quiesce < c.endpoint.expires ∨ c.pending.isSome then pure []
  else if c.isParent then
    let frame ← Channel.begin prefixes n r.second r.third
    pure [frame]
  else if c.requested then pure []
  else
    modify fun c => { c with requested := true }
    let frame ← Channel.control (c.endpoint.epoch + 1) .request r.second
    pure [frame]

/-- `control_frames`. -/
def Channel.controlFrames (r : Reads) : Op (List Control) := do
  onEndpoint (Endpoint.require r.gate)
  let now ← onEndpoint (Endpoint.now r.first)
  let c ← read
  check (now < c.endpoint.localIdentity.body.expires) (.frozen "Mesh session expired")
  if c.pending.any (·.deadline ≤ now) then
    modify Channel.close
    raise (.frozen "Mesh epoch handshake expired")
  else Channel.renewal prefixes n r now

/-- `_install`. -/
def Channel.install (p : Pending) (localCert remoteCert : Cert) (c : Channel) : Channel :=
  { c with
    endpoint :=
      { c.endpoint.erase with
        x := p.exchange
        localCert
        epoch := p.epoch
        expires := localCert.body.expires
        sequence := 0
        received := fun _ => 0 }
    remoteCert
    requested := false }

/-- The frame is one the channel may accept from its peer. -/
def Channel.expects (c : Channel) (now : ℤ) (b : ControlBody) : Prop :=
  b.boot = c.endpoint.boot ∧ b.session = c.endpoint.session ∧
    b.sender = c.remoteIdentity.body.peer ∧ b.receiver = c.endpoint.localIdentity.body.peer ∧
    (c.controlReceived < b.seq ∧ b.seq < 2 ^ 63) ∧ b.epoch < 2 ^ 63 ∧
    (b.issued ≤ now ∧ now < b.expires ∧ b.expires ≤ c.remoteIdentity.body.expires) ∧
    b.expires - b.issued ≤ controlMs

instance (c : Channel) (now : ℤ) (b : ControlBody) : Decidable (c.expects now b) :=
  inferInstanceAs (Decidable (_ ∧ _))

/-- The proposal of a parent. -/
def Channel.acceptProposal (now : ℤ) (epoch : ℕ) (cert : Cert) (challenge : ℕ)
    (clock : Option ℤ) : Op (List Control) := do
  let c ← read
  let parent ← lift (certificate cert c.endpoint.caPublic c.endpoint.boot c.endpoint.session now
    .epoch (some c.remoteIdentity.body))
  check (parent.epoch = epoch ∧ parent.expires - parent.issued ≤ c.endpoint.rotationMs)
    (.mesh "Mesh rekey proposal has an invalid epoch")
  check (parent.x25519 ≠ c.remoteCert.body.x25519)
    (.mesh "Mesh rekey proposal reused its previous exchange key")
  modify fun c => { c with
    pending := some ⟨epoch, some n, challenge, now + controlMs, .reply cert (prefixes n)⟩ }
  let frame ← Channel.control epoch (.reply challenge (some n) (prefixes n)) clock
  pure [frame]

/-- The reply of a child. -/
def Channel.acceptReply (p : Pending) (localCert : Cert) (challenge : ℕ) (x25519 : Secret)
    (noncePrefix : BitVec 32) (clock : Option ℤ) : Op (List Control) := do
  let c ← read
  check (challenge = p.challenge) (.mesh "Mesh rekey response challenge is invalid")
  check (x25519 ≠ c.remoteCert.body.x25519)
    (.mesh "Mesh rekey response reused its previous exchange key")
  let remoteCert := epochCert c.ca c.endpoint.boot c.endpoint.session c.remoteIdentity x25519
    noncePrefix p.epoch localCert.body.issued localCert.body.expires
  modify fun c => { c with pending := some { p with stage := .commit localCert remoteCert } }
  let frame ← Channel.control p.epoch (.commit p.challenge localCert remoteCert) clock
  pure [frame]

/-- The commit of a parent. -/
def Channel.acceptCommit (now : ℤ) (p : Pending) (remoteCert : Cert) (noncePrefix : BitVec 32)
    (challenge : ℕ) (parentCertificate childCertificate : Cert) (clock : Option ℤ) :
    Op (List Control) := do
  let c ← read
  check (challenge = p.challenge ∧ parentCertificate = remoteCert)
    (.mesh "Mesh rekey commit does not match its proposal")
  let loc ← lift (certificate childCertificate c.endpoint.caPublic c.endpoint.boot
    c.endpoint.session now .epoch (some c.endpoint.localIdentity.body))
  check (loc.epoch = p.epoch ∧ loc.x25519 = p.exchange ∧ loc.noncePrefix = noncePrefix ∧
      loc.expires = remoteCert.body.expires)
    (.mesh "Mesh rekey commit changed the child's fresh key")
  modify fun c => { c.install p childCertificate remoteCert with
    pending := some { p with stage := .ack childCertificate remoteCert } }
  let frame ← Channel.control p.epoch (.ack p.challenge) clock
  pure [frame]

/-- The acknowledgement of a child. -/
def Channel.acceptAck (p : Pending) (localCert remoteCert : Cert) (challenge : ℕ) :
    Op (List Control) := do
  check (challenge = p.challenge) (.mesh "Mesh rekey acknowledgement is invalid")
  modify fun c => { c.install p localCert remoteCert with pending := none }
  pure []

/-- A frame of the handshake that is pending. -/
def Channel.acceptPending (now : ℤ) (b : ControlBody) (clock : Option ℤ) : Op (List Control) := do
  let c ← read
  match c.pending with
  | none => raise unsolicited
  | some p =>
    check (b.epoch = p.epoch ∧ now < p.deadline) unsolicited
    match b.data, c.isParent, p.stage with
    | .reply challenge x25519 noncePrefix, true, .proposal localCert =>
      Channel.acceptReply p localCert challenge x25519 noncePrefix clock
    | .commit challenge parent child, false, .reply remoteCert noncePrefix =>
      Channel.acceptCommit now p remoteCert noncePrefix challenge parent child clock
    | .ack challenge, true, .commit localCert remoteCert =>
      Channel.acceptAck p localCert remoteCert challenge
    | _, _, _ => raise (.mesh "Unexpected mesh control transition")
where
  unsolicited : Failure := .mesh "Unsolicited or expired mesh rekey frame"

/-- What a frame that was admitted does. -/
def Channel.react (r : Reads) (now : ℤ) (b : ControlBody) : Op (List Control) := do
  let c ← read
  match b.data with
  | .request =>
    if c.isParent ∧ b.epoch = c.endpoint.epoch + 1 then
      if c.pending.isSome then pure []
      else
        let frame ← Channel.begin prefixes n r.second r.third
        pure [frame]
    else Channel.acceptPending now b r.second
  | .proposal cert challenge =>
    if ¬c.isParent ∧ c.pending.isNone ∧ b.epoch = c.endpoint.epoch + 1 then
      Channel.acceptProposal prefixes n now b.epoch cert challenge r.second
    else Channel.acceptPending now b r.second
  | _ => Channel.acceptPending now b r.second

/-- `accept_control`. -/
def Channel.acceptControl (r : Reads) (frame : Control) : Op (List Control) := do
  onEndpoint (Endpoint.require r.gate)
  let now ← onEndpoint (Endpoint.now r.first)
  let c ← read
  check (c.expects now frame.body) (.mesh "Mesh control identity, sequence, or lifetime is invalid")
  check (verify c.remoteIdentity.body.ed25519 frame.body frame.signature)
    (.mesh "Mesh signature verification failed")
  modify fun c => { c with controlReceived := frame.body.seq }
  Channel.react prefixes n r now frame.body

end Handshake

def Stage.isAck : Stage → Bool
  | .ack _ _ => true
  | _ => false

/-- `control_sent`. -/
def Channel.controlSent (frame : Control) (c : Channel) : Channel :=
  match frame.body.data with
  | .ack _ =>
    if ¬c.isParent ∧ c.pending.any (·.stage.isAck) then { c with pending := none } else c
  | _ => c

end Angerona.Mesh
