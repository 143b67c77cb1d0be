import Angerona.Lib.Transition
import Angerona.Mesh.Endpoint

/-!
    The in-process mesh authority.

    The authority owns its peers: it issues their certificates, rotates all of them together, and
    renews or freezes the session. Each call is an effect under the readings of the clock and the
    gate it takes; keys, identifiers and prefixes are drawn one after the other. A world adds what
    was sealed and opened, and the packets of the network. -/

namespace Angerona.Mesh
open Text Effect

/-- `MeshAuthority`. -/
structure Authority where
  ca : Secret
  boot : ℕ
  session : ℕ
  /-- `_peers`, by identifier, in the order they were enrolled. -/
  peers : List Endpoint
  labels : List Str
  epoch : ℕ
  issued : ℤ
  expires : ℤ
  sessionExpires : ℤ
  rotationMs : ℕ
  verified : Bool
  closed : Bool
  transactionDepth : ℕ
  /-- How many keys and identifiers were drawn. -/
  drawn : ℕ

/-- The readings `tick` takes: of the clock and the gate, and once more to renew the session. -/
structure Readings where
  clock : Option ℤ
  gate : Gate
  renewGate : Gate
  renewClock : Option ℤ

abbrev Action (α : Type) := Effect Failure Authority α

/-- `secrets.token_bytes(4)` of a draw. -/
abbrev Prefixes := ℕ → BitVec 32

/-- `int(clock() * 1000)`. -/
def clockMs : Option ℤ → Action ℤ
  | none => raise (.value "cannot convert float to integer")
  | some now => pure now

/-! ### Peers -/

def Authority.peer? (a : Authority) (id : ℕ) : Option Endpoint := a.peers.find? (·.peerId = id)

/-- An effect of one peer. -/
def onPeer {α : Type} (e : Endpoint) (m : Effect Failure Endpoint α) : Action α :=
  zoom (fun _ => e) (fun e' a =>
    { a with peers := a.peers.map fun p => if p.peerId = e.peerId then e' else p }) m

/-- `_member`. -/
def member (id : ℕ) : Action Endpoint := do
  let a ← read
  match a.peer? id with
  | some e => if e.closed then raise refusal else pure e
  | none => raise refusal
where
  refusal : Failure := .mesh "Mesh sender/receiver capability is not enrolled here"

/-! ### Rotation -/

/-- The peer with fresh keys, drawn at `n`, and a certificate for the epoch. -/
def Endpoint.rotate (prefixes : Prefixes) (ca : Secret) (boot session epoch : ℕ)
    (issued expires : ℤ) (n : ℕ) (e : Endpoint) : Endpoint :=
  let identity := e.localIdentity.body
  { e.erase with
    x := some n
    localCert := issue ca
      { kind := .epoch, boot, session, peer := identity.peer, label := identity.label
        sourceDigest := identity.sourceDigest, epoch, issued, expires, ed25519 := e.ed
        x25519 := some n, noncePrefix := prefixes n }
    epoch
    expires
    sequence := 0
    received := fun _ => 0 }

section Calls

variable (prefixes : Prefixes)

/-- `_rotate`. -/
def Authority.rotate (now : ℤ) (a : Authority) : Authority :=
  let expires := min (now + a.rotationMs) a.sessionExpires
  { a with
    epoch := a.epoch + 1
    issued := now
    expires
    peers := a.peers.mapIdx fun i e =>
      e.rotate prefixes a.ca a.boot a.session (a.epoch + 1) now expires (a.drawn + i)
    drawn := a.drawn + a.peers.length }

/-- `freeze`. -/
def Authority.freeze (a : Authority) : Authority :=
  { a with
    verified := false
    peers := a.peers.map fun e => { e.halt with verified := false, x := none } }

/-- The peer in a new session, its keys drawn at `n` and `n + 1`. -/
def Endpoint.renew (ca : Secret) (boot session epoch : ℕ) (issued expires : ℤ)
    (prefixes : Prefixes) (n : ℕ) (e : Endpoint) : Endpoint :=
  let identity := e.localIdentity.body
  { e with
    ed := some n
    x := some (n + 1)
    caPublic := ca
    session
    localIdentity := issue ca
      { kind := .identity, boot, session, peer := identity.peer, label := identity.label
        sourceDigest := identity.sourceDigest, epoch, issued, expires, ed25519 := some n
        x25519 := some (n + 1), noncePrefix := prefixes (n + 1) } }

/-- The new session of `renew_session`, before its rotation. -/
def Authority.renew (now : ℤ) (a : Authority) : Authority :=
  let ca : Secret := some a.drawn
  let session := a.drawn + 1
  let sessionExpires := now + sessionMs
  { a with
    ca
    session
    sessionExpires
    peers := a.peers.mapIdx fun i e =>
      e.renew ca a.boot session (a.epoch + 1) now sessionExpires prefixes (a.drawn + 2 + 2 * i)
    drawn := a.drawn + 2 + 2 * a.peers.length }

/-- `renew_session`. -/
def renewSession (gate : Gate) (clock : Option ℤ) : Action Unit := do
  let a ← read
  check (¬(a.closed ∨ ¬a.verified)) (.frozen "Verified mesh authorization is required for renewal")
  match gate with
  | .raised => raise (.value "gate")
  | .refused =>
    modify Authority.freeze
    raise (.frozen "Mesh renewal gate is not approved")
  | .approved =>
    let now ← clockMs clock
    modify fun a => (a.renew prefixes now).rotate prefixes now

/-- `tick`, of an authority that is not closed. -/
def tickOpen (r : Readings) : Action Unit := do
  let now ← clockMs r.clock
  let a ← read
  if now < a.issued then
    modify Authority.freeze
    raise (.frozen "Mesh session clock or lifetime is invalid")
  else
    modify fun a => if r.gate = .approved then a else a.freeze
    let a ← read
    if a.verified ∧ a.sessionExpires - 2 * a.rotationMs ≤ now then
      renewSession prefixes r.renewGate r.renewClock
    else if a.sessionExpires ≤ now then
      raise (.frozen "Mesh session expired while frozen")
    else
      modify fun a => if a.verified ∧ a.expires ≤ now then a.rotate prefixes now else a

/-- `tick`. -/
def tick (r : Readings) : Action Unit := do
  let a ← read
  if a.closed then pure () else tickOpen prefixes r

/-- `tick`, unless a transaction holds the epoch. -/
def tickOutside (r : Readings) : Action Unit := do
  let a ← read
  if a.transactionDepth = 0 then tick prefixes r else pure ()

/-- The beginning of `transaction`. -/
def enter (r : Readings) (clock : Option ℤ) : Action Unit := do
  tick prefixes r
  let now ← clockMs clock
  modify fun a =>
    if a.verified ∧ a.expires ≤ now + min 1000 (a.rotationMs / 4) then a.rotate prefixes now else a
  modify fun a => { a with transactionDepth := a.transactionDepth + 1 }

/-- The end of `transaction`. -/
def leave : Action Unit := modify fun a => { a with transactionDepth := a.transactionDepth - 1 }

/-- `set_verified`, with the readings of the gate and the clock, and those after them. -/
def setVerified (value : Bool) (gate : Gate) (clock : Option ℤ) (gate' : Gate)
    (clock' : Option ℤ) : Action Unit := do
  let a ← read
  check (¬a.closed) (.frozen "Mesh is closed")
  if ¬value then modify Authority.freeze
  else
    check (gate ≠ .raised) (.value "gate")
    check (gate = .approved) (.frozen "Mesh verification gate is not approved")
    modify fun a => { a with verified := true }
    let now ← clockMs clock
    let a ← read
    if a.sessionExpires ≤ now then renewSession prefixes gate' clock'
    else
      let now ← clockMs clock'
      modify fun a => a.rotate prefixes now
    modify fun a =>
      { a with peers := a.peers.map fun e => { e with verified := true, frozen := false } }

/-! ### Enrolment -/

/-- A new peer: its keys, its identifier and its prefix are drawn at `n` and after it. -/
def Authority.newPeer (a : Authority) (n : ℕ) (label sourceDigest : Str) : Endpoint :=
  let body (kind : CertKind) (expires : ℤ) : CertBody :=
    { kind, boot := a.boot, session := a.session, peer := n + 2, label, sourceDigest
      epoch := a.epoch, issued := a.issued, expires, ed25519 := some n, x25519 := some (n + 1)
      noncePrefix := prefixes (n + 3) }
  { caPublic := a.ca
    ed := some n
    x := some (n + 1)
    localIdentity := issue a.ca (body .identity a.sessionExpires)
    localCert := issue a.ca (body .epoch a.expires)
    boot := a.boot
    session := a.session
    verified := a.verified
    closed := false
    frozen := !a.verified
    lastNow := -1
    epoch := a.epoch
    expires := a.expires
    rotationMs := a.rotationMs
    sequence := 0
    received := fun _ => 0
    keys := []
    payloadLimit := localMaxPayload }

/-- `enroll`; returns the identifier of the peer. -/
def enroll (label sourceDigest : Str) (r : Readings) : Action ℕ := do
  check (isLabel label) (.value "Invalid mesh peer label")
  check (isDigest sourceDigest) (.value "Mesh source digest must be empty or SHA-256")
  tick prefixes r
  let a ← read
  check (¬(a.closed ∨ maxPeers ≤ a.peers.length ∨ label ∈ a.labels))
    (.mesh "Mesh enrollment is closed, full, or already named")
  let e := a.newPeer prefixes a.drawn label sourceDigest
  modify fun a =>
    { a with peers := a.peers ++ [e], labels := a.labels ++ [label], drawn := a.drawn + 4 }
  pure e.peerId

/-! ### Packets -/

/-- `MeshPeer.seal`. -/
def peerSeal (sender receiver : ℕ) (payload : List UInt8) (purpose : Str) (r : Readings)
    (gate : Gate) (clock : Option ℤ) : Action Packet := do
  tickOutside prefixes r
  let e ← member sender
  let remote ← member receiver
  onPeer e (Endpoint.seal gate clock payload remote.localCert purpose)

/-- The sender an envelope names. -/
def Envelope.sender : Envelope → Option ℕ
  | .packet p => some p.header.sender
  | .malformed sender _ => sender

/-- `MeshPeer.open`. -/
def peerOpen (receiver : ℕ) (envelope : Envelope) (purpose : Str) (expectedSender : Option ℕ)
    (r : Readings) (gate : Gate) (clock : Option ℤ) : Action (List UInt8) := do
  tickOutside prefixes r
  let e ← member receiver
  let a ← read
  match envelope.sender.bind a.peer? with
  | none => raise (.mesh "Mesh packet sender is not enrolled")
  | some sender =>
    check (∀ id ∈ expectedSender, id = sender.peerId)
      (.mesh "Mesh packet sender differs from its bound capability")
    onPeer e (Endpoint.open gate clock envelope sender.localCert purpose)

/-- `close` of the authority. -/
def Authority.close (a : Authority) : Authority :=
  { a with closed := true, peers := a.peers.map Endpoint.close, ca := none }

/-- `close` of one peer. -/
def closePeer (id : ℕ) : Action Unit := do
  let a ← read
  match a.peer? id with
  | none => pure ()
  | some e => onPeer e (modify Endpoint.close)

end Calls

end Angerona.Mesh
