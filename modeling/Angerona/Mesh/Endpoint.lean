import Angerona.Lib.Effect
import Angerona.Lib.Text
import Mathlib.Data.Sym.Sym2

/-!
    One end of the enclave mesh.

    Cryptography is symbolic: a public key is named by its private key, a signature is the term
    "signed under this key", a sealed box the term "encrypted under this key and nonce", and a
    derived key is the term of everything it is derived from. A wiped key buffer is the key `none`,
    which everybody knows. Frames are values: two with equal canonical texts are equal. -/

namespace Angerona.Mesh
open Text

/-! ### Limits -/

def localMaxPayload : ℕ := 256 * 1024
def maxPayload : ℕ := 4 * 1024 * 1024
def maxPeers : ℕ := 128
def sessionMs : ℤ := 60 * 60 * 1000
def packetMs : ℤ := 3000
def maxCachedKeys : ℕ := 64

/-- `_LABEL.fullmatch`. -/
def isLabel : Str → Bool
  | [] => false
  | c :: cs => c.isAlpha ∧ cs.length ≤ 79 ∧
    cs.all fun c => c.isAlphanum ∨ c = '_' ∨ c = '.' ∨ c = ' ' ∨ c = '-'

/-- `_PURPOSE.fullmatch`. -/
def isPurpose : Str → Bool
  | [] => false
  | c :: cs => c.isAlpha ∧ cs.length ≤ 63 ∧
    cs.all fun c => c.isAlphanum ∨ c = '_' ∨ c = '.' ∨ c = '-'

/-- `_DIGEST.fullmatch`. -/
def isDigest (s : Str) : Bool :=
  s = [] ∨ (s.length = 64 ∧ s.all fun c => ('0' ≤ c ∧ c ≤ '9') ∨ ('a' ≤ c ∧ c ≤ 'f'))

inductive Failure where
  /-- `MeshError`. -/
  | mesh (message : String)
  /-- `MeshFrozen`. -/
  | frozen (message : String)
  /-- `MeshHandshakeRequired`. -/
  | handshake (message : String)
  /-- `ValueError` and the other errors of Python itself. -/
  | value (message : String)
  deriving DecidableEq

/-! ### Symbolic cryptography -/

/-- A private key; `none` is a wiped buffer. -/
abbrev Secret := Option ℕ

/-- A signature under `key` over `message`. -/
structure Signature (μ : Type) where
  key : Secret
  message : μ
  deriving DecidableEq

/-- `_verify`. -/
def verify {μ : Type} [DecidableEq μ] (key : Secret) (message : μ) (s : Signature μ) : Bool :=
  s = ⟨key, message⟩

inductive CertKind where
  | identity
  | epoch
  deriving DecidableEq

structure CertBody where
  kind : CertKind
  boot : ℕ
  session : ℕ
  peer : ℕ
  label : Str
  sourceDigest : Str
  epoch : ℕ
  issued : ℤ
  expires : ℤ
  ed25519 : Secret
  x25519 : Secret
  noncePrefix : BitVec 32
  deriving DecidableEq

structure Cert where
  body : CertBody
  signature : Signature CertBody
  deriving DecidableEq

/-- `_issue`. -/
def issue (ca : Secret) (body : CertBody) : Cert := ⟨body, ⟨ca, body⟩⟩

/-- A derived key: the shared secret, the two certificates in order, and the context. -/
structure Key where
  shared : Sym2 Secret
  certificates : Cert × Cert
  boot : ℕ
  session : ℕ
  epoch : ℕ
  sender : ℕ
  receiver : ℕ
  purpose : Str

-- an equation between shared secrets is not one of terms, so the fields are compared one by one
instance : DecidableEq Key := fun a b =>
  decidable_of_iff (a.shared = b.shared ∧ a.certificates = b.certificates ∧ a.boot = b.boot ∧
      a.session = b.session ∧ a.epoch = b.epoch ∧ a.sender = b.sender ∧ a.receiver = b.receiver ∧
      a.purpose = b.purpose) (by
    obtain ⟨_, _, _, _, _, _, _, _⟩ := a
    obtain ⟨_, _, _, _, _, _, _, _⟩ := b
    rw [Key.mk.injEq])

/-- `_derived`. -/
def derived (x : Secret) (remote loc : Cert) (sender receiver : ℕ) (purpose : Str) : Key where
  shared := s(x, remote.body.x25519)
  certificates := if remote.body.peer < loc.body.peer then (remote, loc) else (loc, remote)
  boot := loc.body.boot
  session := loc.body.session
  epoch := loc.body.epoch
  sender
  receiver
  purpose

/-- The prefix of the certificate and the sequence number. -/
abbrev Nonce := BitVec 32 × ℕ

structure Header where
  boot : ℕ
  session : ℕ
  sender : ℕ
  receiver : ℕ
  purpose : Str
  epoch : ℕ
  seq : ℕ
  issued : ℤ
  expires : ℤ
  nonce : Nonce
  certificate : Cert
  deriving DecidableEq

/-- A ciphertext: the header is its associated data. -/
structure Box where
  key : Key
  nonce : Nonce
  header : Header
  payload : List UInt8
  deriving DecidableEq

/-- `AESGCM(key).decrypt`. -/
def Box.decrypt (b : Box) (key : Key) (nonce : Nonce) (header : Header) : Option (List UInt8) :=
  if b.key = key ∧ b.nonce = nonce ∧ b.header = header then some b.payload else none

structure Packet where
  header : Header
  ciphertext : Box
  signature : Signature (Header × Box)
  deriving DecidableEq

/-- What is presented to `open`: a packet, or a frame with fields of other types, which fails the
    check that raises `failure`; it may still name a sender. -/
inductive Envelope where
  | packet (p : Packet)
  | malformed (sender : Option ℕ) (failure : Failure)

/-! ### Certificates -/

/-- `_certificate`. -/
def certificate (cert : Cert) (ca : Secret) (boot session : ℕ) (now : ℤ) (kind : CertKind)
    (expected : Option CertBody) : Except Failure CertBody :=
  let body := cert.body
  if body.kind ≠ kind ∨ body.boot ≠ boot ∨ body.session ≠ session ∨ ¬isLabel body.label ∨
      ¬isDigest body.sourceDigest ∨ ¬body.epoch < 2 ^ 63 ∨
      ¬(body.issued ≤ now ∧ now < body.expires) ∨ sessionMs < body.expires - body.issued then
    .error (.mesh "Mesh certificate identity, epoch, or lifetime is invalid")
  else if ¬verify ca body cert.signature then
    .error (.mesh "Mesh signature verification failed")
  else
    match expected with
    | none => .ok body
    | some other =>
      if body.peer ≠ other.peer ∨ body.label ≠ other.label ∨
          body.sourceDigest ≠ other.sourceDigest ∨ body.ed25519 ≠ other.ed25519 then
        .error (.mesh "Mesh certificate changed its enrolled identity")
      else .ok body

/-! ### Endpoints -/

/-- The remote peer, the sender, the receiver, the purpose and the epoch of a cached key. -/
abbrev KeyId := ℕ × ℕ × ℕ × Str × ℕ

/-- `_Endpoint`. -/
structure Endpoint where
  caPublic : Secret
  ed : Secret
  x : Secret
  localIdentity : Cert
  localCert : Cert
  boot : ℕ
  session : ℕ
  verified : Bool
  closed : Bool
  frozen : Bool
  lastNow : ℤ
  epoch : ℕ
  expires : ℤ
  rotationMs : ℕ
  sequence : ℕ
  /-- The last sequence number received of each sender. -/
  received : ℕ → ℕ
  keys : List (KeyId × Key)
  payloadLimit : ℕ

/-- `peer_id`. -/
def Endpoint.peerId (e : Endpoint) : ℕ := e.localIdentity.body.peer

/-- What a call of the gate does. -/
inductive Gate where
  | approved
  | refused
  | raised
  deriving DecidableEq

/-- `_erase`. -/
def Endpoint.erase (e : Endpoint) : Endpoint := { e with keys := [] }

/-- The keys are gone, and the endpoint waits for an authorization. -/
def Endpoint.halt (e : Endpoint) : Endpoint := { e.erase with frozen := true }

section Operations

open Effect

/-- `_now`, with the reading of the clock in milliseconds; none when it is not a time. -/
def Endpoint.now : Option ℤ → Effect Failure Endpoint ℤ
  | none => raise (.mesh "Invalid mesh clock")
  | some now => do
    let e ← read
    if now < e.lastNow then
      modify Endpoint.halt
      raise (.frozen "Mesh clock moved backwards")
    else
      modify fun e => { e with lastNow := now }
      pure now

/-- `_require`. -/
def Endpoint.require (gate : Gate) : Effect Failure Endpoint Unit := do
  let e ← read
  check (¬(e.closed ∨ e.frozen ∨ ¬e.verified))
    (.frozen "Mesh is closed or awaiting verified authorization")
  if gate = .approved then pure ()
  else
    modify Endpoint.halt
    raise (.frozen "Mesh authorization was revoked")

/-- A new key; of more than 64 the oldest goes. -/
def cacheKey (id : KeyId) (key : Key) (keys : List (KeyId × Key)) : List (KeyId × Key) :=
  if maxCachedKeys < (keys ++ [(id, key)]).length then (keys ++ [(id, key)]).tail
  else keys ++ [(id, key)]

/-- `_key`. -/
def Endpoint.key (remote : Cert) (sender receiver : ℕ) (purpose : Str) :
    Effect Failure Endpoint Key := do
  let e ← read
  let id : KeyId := (remote.body.peer, sender, receiver, purpose, e.epoch)
  match e.keys.lookup id with
  | some key => pure key
  | none =>
    let key := derived e.x remote e.localCert sender receiver purpose
    modify fun e => { e with keys := cacheKey id key e.keys }
    pure key

/-- The header of the next packet. -/
def Endpoint.header (e : Endpoint) (now : ℤ) (remote : Cert) (purpose : Str) : Header where
  boot := e.boot
  session := e.session
  sender := e.localCert.body.peer
  receiver := remote.body.peer
  purpose
  epoch := e.epoch
  seq := e.sequence
  issued := now
  expires := min (now + packetMs) e.expires
  nonce := (e.localCert.body.noncePrefix, e.sequence)
  certificate := e.localCert

/-- `_seal`. -/
def Endpoint.seal (gate : Gate) (reading : Option ℤ) (payload : List UInt8) (remote : Cert)
    (purpose : Str) : Effect Failure Endpoint Packet := do
  Endpoint.require gate
  let now ← Endpoint.now reading
  let e ← read
  check (now < e.expires) (.handshake "Mesh epoch renewal is required")
  check (payload.length ≤ e.payloadLimit) (.mesh "Mesh payload must be bounded bytes")
  check (isPurpose purpose) (.mesh "Invalid mesh purpose")
  check (e.sequence < 2 ^ 63 - 1) (.mesh "Mesh sequence limit reached")
  modify fun e => { e with sequence := e.sequence + 1 }
  let e ← read
  let header := e.header now remote purpose
  let key ← Endpoint.key remote header.sender header.receiver purpose
  let ciphertext : Box := ⟨key, header.nonce, header, payload⟩
  pure ⟨header, ciphertext, ⟨e.ed, (header, ciphertext)⟩⟩

/-- The header is one the endpoint may accept from the remote peer. -/
def Endpoint.expects (e : Endpoint) (now : ℤ) (h : Header) (remote : Cert) (purpose : Str) : Prop :=
  h.boot = e.boot ∧ h.session = e.session ∧ h.sender = remote.body.peer ∧
    h.receiver = e.localCert.body.peer ∧ isPurpose purpose = true ∧ h.purpose = purpose ∧
    h.epoch = e.epoch ∧ 0 < h.seq ∧ h.seq < 2 ^ 63 ∧
    (h.issued ≤ now ∧ now < h.expires ∧ h.expires ≤ e.expires) ∧ h.expires - h.issued ≤ packetMs

instance (e : Endpoint) (now : ℤ) (h : Header) (remote : Cert) (purpose : Str) :
    Decidable (e.expects now h remote purpose) := inferInstanceAs (Decidable (_ ∧ _))

/-- The checks of `_open` on a packet, up to its decryption. -/
def Endpoint.admitPacket (now : ℤ) (p : Packet) (remote : Cert) (purpose : Str) :
    Effect Failure Endpoint Unit := do
  let e ← read
  check (e.expects now p.header remote purpose)
    (.mesh "Mesh packet identity, purpose, epoch, or lifetime is invalid")
  let cert ← lift (certificate p.header.certificate e.caPublic e.boot e.session now .epoch
    (some remote.body))
  check (p.header.certificate = remote ∧ cert.epoch = e.epoch)
    (.mesh "Mesh packet uses an unnegotiated epoch certificate")
  check (p.header.nonce = (cert.noncePrefix, p.header.seq))
    (.mesh "Mesh nonce is inconsistent with its signed sequence")
  check (e.received p.header.sender < p.header.seq)
    (.mesh "Mesh packet is replayed or out of order")
  check (p.ciphertext.payload.length ≤ e.payloadLimit) (.mesh "Invalid mesh binary length")
  check (verify cert.ed25519 (p.header, p.ciphertext) p.signature)
    (.mesh "Mesh signature verification failed")

/-- `_open`. -/
def Endpoint.open (gate : Gate) (reading : Option ℤ) (envelope : Envelope) (remote : Cert)
    (purpose : Str) : Effect Failure Endpoint (List UInt8) := do
  Endpoint.require gate
  let now ← Endpoint.now reading
  let e ← read
  check (now < e.expires) (.handshake "Mesh epoch renewal is required")
  match envelope with
  | .malformed _ failure => raise failure
  | .packet p =>
    Endpoint.admitPacket now p remote purpose
    let key ← Endpoint.key remote p.header.sender p.header.receiver purpose
    match p.ciphertext.decrypt key p.header.nonce p.header with
    | none => raise (.mesh "Mesh AEAD authentication failed")
    | some payload =>
      modify fun e => { e with received := Function.update e.received p.header.sender p.header.seq }
      pure payload

/-- `close`. -/
def Endpoint.close (e : Endpoint) : Endpoint :=
  { e.erase with closed := true, frozen := true, ed := none, x := none }

end Operations

end Angerona.Mesh
