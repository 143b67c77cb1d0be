import Angerona.Lib.Raising
import Angerona.Mesh.Authenticity
import Angerona.Mesh.Channel

/-!
    How the two ends of a channel are made.

    A private authority enrolls both ends and is closed; the parent keeps its key. The child gets
    its private keys and all certificates in the bootstrap, and checks them. From then on the two
    ends share a `Pairing`, and everything in one `Era`, which a handshake replaces. -/

namespace Angerona.Mesh
open Text Effect

/-! ### Making a pair -/

inductive Side where
  | parent
  | child
  deriving DecidableEq

def Side.other : Side → Side
  | .parent => .child
  | .child => .parent

@[simp] theorem Side.other_other (s : Side) : s.other.other = s := by cases s <;> rfl

structure Bootstrap where
  boot : ℕ
  session : ℕ
  caPublic : Secret
  signingPrivate : Secret
  exchangePrivate : Secret
  localIdentity : Cert
  remoteIdentity : Cert
  localCert : Cert
  remoteCert : Cert
  rotationMs : ℕ

/-- `_setup`, of the end that is described by a bootstrap. -/
def Bootstrap.setup (b : Bootstrap) (ca : Secret) (isParent verified : Bool) : Channel where
  endpoint :=
    { caPublic := b.caPublic
      ed := b.signingPrivate
      x := b.exchangePrivate
      localIdentity := b.localIdentity
      localCert := b.localCert
      boot := b.boot
      session := b.session
      verified
      closed := false
      frozen := !verified
      lastNow := -1
      epoch := b.localCert.body.epoch
      expires := b.localCert.body.expires
      rotationMs := b.rotationMs
      sequence := 0
      received := fun _ => 0
      keys := []
      payloadLimit := maxPayload }
  remoteIdentity := b.remoteIdentity
  remoteCert := b.remoteCert
  ca
  isParent
  controlSend := 0
  controlReceived := 0
  pending := none
  requested := false

/-- What is handed to the end of one peer, for the other. -/
def Authority.bootstrap (a : Authority) (loc remote : Endpoint) : Bootstrap where
  boot := a.boot
  session := a.session
  caPublic := a.ca
  signingPrivate := loc.ed
  exchangePrivate := loc.x
  localIdentity := loc.localIdentity
  remoteIdentity := remote.localIdentity
  localCert := loc.localCert
  remoteCert := remote.localCert
  rotationMs := a.rotationMs

/-- The readings of an authority without a gate. -/
def ungated (clock renewClock : Option ℤ) : Readings := ⟨clock, .approved, .approved, renewClock⟩

/-- `create_pair`, of an authority that was just made, with the readings of the two enrolments; the
    end of the parent with the bootstrap of the child. -/
def createPair (prefixes : Prefixes) (parentLabel childLabel : Str) (r r' : Option ℤ × Option ℤ)
    (verified : Bool) : Action (Channel × Bootstrap) := do
  let parentId ← enroll prefixes parentLabel [] (ungated r.1 r.2)
  let childId ← enroll prefixes childLabel [] (ungated r'.1 r'.2)
  let a ← read
  match a.peer? parentId, a.peer? childId with
  | some parent, some child =>
    modify Authority.close
    pure ((a.bootstrap parent child).setup a.ca true verified, a.bootstrap child parent)
  | _, _ => raise (.value "KeyError")

/-- `from_bootstrap`, with its reading of the clock. -/
def fromBootstrap (b : Bootstrap) (clock : Option ℤ) (verified : Bool) : Except Failure Channel :=
  if ¬(100 ≤ b.rotationMs ∧ b.rotationMs ≤ 10000) then
    .error (.mesh "Invalid private mesh bootstrap")
  else
    match clock with
    | none => .error (.value "cannot convert float to integer")
    | some now => do
      let certified (cert : Cert) := certificate cert b.caPublic b.boot b.session now
      let localId ← certified b.localIdentity .identity none
      let remoteId ← certified b.remoteIdentity .identity none
      let loc ← certified b.localCert .epoch (some localId)
      let remote ← certified b.remoteCert .epoch (some remoteId)
      if localId.peer = remoteId.peer ∨ loc.epoch ≠ remote.epoch ∨ loc.expires ≠ remote.expires ∨
          b.signingPrivate ≠ loc.ed25519 ∨ b.exchangePrivate ≠ loc.x25519 then
        .error (.mesh "Mesh bootstrap private keys do not match certified identities")
      else .ok (b.setup none false verified)

/-! ### What the ends share -/

/-- What two ends share for good. -/
structure Pairing where
  ca : Secret
  boot : ℕ
  session : ℕ
  identity : Side → Cert
  rotationMs : ℕ

/-- What a handshake agrees on. -/
structure Era where
  number : ℕ
  issued : ℤ
  expires : ℤ
  x : Side → Secret
  noncePrefix : Side → BitVec 32

namespace Pairing

variable (K : Pairing)

def peer (s : Side) : ℕ := (K.identity s).body.peer
def ed (s : Side) : Secret := (K.identity s).body.ed25519

/-- The certificate of one side in an era. -/
def cert (ε : Era) (s : Side) : Cert :=
  epochCert K.ca K.boot K.session (K.identity s) (ε.x s) (ε.noncePrefix s) ε.number ε.issued
    ε.expires

/-- The identities are what the checks of a certificate ask for. -/
structure Sound : Prop where
  distinct : K.peer .parent ≠ K.peer .child
  labels : ∀ s, isLabel (K.identity s).body.label = true
  digests : ∀ s, isDigest (K.identity s).body.sourceDigest = true
  expires : (K.identity .parent).body.expires = (K.identity .child).body.expires
  rotation : K.rotationMs ≤ 10000

/-- An end is in an era. -/
structure Placed (ε : Era) (s : Side) (c : Channel) : Prop where
  caPublic : c.endpoint.caPublic = K.ca
  boot : c.endpoint.boot = K.boot
  session : c.endpoint.session = K.session
  rotation : c.endpoint.rotationMs = K.rotationMs
  localIdentity : c.endpoint.localIdentity = K.identity s
  remoteIdentity : c.remoteIdentity = K.identity s.other
  localCert : c.endpoint.localCert = K.cert ε s
  remoteCert : c.remoteCert = K.cert ε s.other
  epoch : c.endpoint.epoch = ε.number
  expires : c.endpoint.expires = ε.expires
  role : c.isParent = decide (s = .parent)
  limit : c.endpoint.payloadLimit = maxPayload
  secrets : c.endpoint.closed = false →
    c.endpoint.ed = K.ed s ∧ c.endpoint.x = ε.x s ∧ (s = .parent → c.ca = K.ca)
  keys : ∀ entry ∈ c.endpoint.keys, ∃ sender receiver purpose,
    entry = ((K.peer s.other, sender, receiver, purpose, ε.number),
      derived (ε.x s) (K.cert ε s.other) (K.cert ε s) sender receiver purpose)
  bound : ε.number < 2 ^ 63
  lifetime : ε.expires - ε.issued ≤ K.rotationMs

/-- A packet that one side sealed in an era. -/
structure Carries (ε : Era) (s : Side) (p : Packet) : Prop where
  header : p.header =
    { boot := K.boot
      session := K.session
      sender := K.peer s
      receiver := K.peer s.other
      purpose := p.header.purpose
      epoch := ε.number
      seq := p.header.seq
      issued := p.header.issued
      expires := min (p.header.issued + packetMs) ε.expires
      nonce := (ε.noncePrefix s, p.header.seq)
      certificate := K.cert ε s }
  purpose : isPurpose p.header.purpose = true
  seq : 0 < p.header.seq ∧ p.header.seq < 2 ^ 63
  size : p.ciphertext.payload.length ≤ maxPayload
  box : p.ciphertext =
    ⟨derived (ε.x s) (K.cert ε s.other) (K.cert ε s) (K.peer s) (K.peer s.other) p.header.purpose,
      p.header.nonce, p.header, p.ciphertext.payload⟩
  signature : p.signature = ⟨K.ed s, (p.header, p.ciphertext)⟩

end Pairing

/-- The exchange keys of the era were drawn. -/
def Era.Drawn (ε : Era) (n : ℕ) : Prop := ∀ s, ∃ m < n, ε.x s = some m

/-- Only bookkeeping changed: the clock, the numbers of control frames, a halt. -/
def Channel.Aside (c c' : Channel) : Prop :=
  ∃ lastNow frozen keys send received, (keys = c.endpoint.keys ∨ keys = []) ∧
    c' = { c with
      endpoint := { c.endpoint with lastNow, frozen, keys }
      controlSend := send
      controlReceived := received }

section Placed

variable {K : Pairing} {ε ε' : Era} {s : Side} {c c' c'' : Channel}

theorem Channel.Aside.refl (c : Channel) : c.Aside c := ⟨_, _, _, _, _, .inl rfl, rfl⟩

/-- An end stays where it is when only its sequence numbers, its clock, its flags and its cached keys
    change, and the keys are those of its era. -/
theorem Pairing.Placed.keyed (h : K.Placed ε s c) {lastNow : ℤ} {frozen : Bool}
    {keys : List (KeyId × Key)} {sequence : ℕ} {received : ℕ → ℕ}
    (hkeys : ∀ entry ∈ keys, entry ∈ c.endpoint.keys ∨ ∃ sender receiver purpose,
      entry = ((K.peer s.other, sender, receiver, purpose, ε.number),
        derived (ε.x s) (K.cert ε s.other) (K.cert ε s) sender receiver purpose)) :
    K.Placed ε s { c with endpoint := { c.endpoint with lastNow, frozen, keys, sequence, received } } :=
  { h with keys := fun entry he => (hkeys entry he).elim (h.keys entry) id }

theorem Pairing.Placed.aside (h : K.Placed ε s c) (h' : c.Aside c') : K.Placed ε s c' := by
  obtain ⟨_, _, keys, _, _, hkeys, rfl⟩ := h'
  refine { h with keys := fun entry he => ?_ }
  rcases hkeys with rfl | rfl
  · exact h.keys entry he
  · cases he

theorem Pairing.Placed.close (h : K.Placed ε s c) : K.Placed ε s c.close :=
  { h with
    secrets := fun hopen => nomatch hopen
    keys := fun _ he => nomatch he }

theorem Pairing.Placed.install (h : K.Placed ε s c) {p : Pending} (hepoch : p.epoch = ε'.number)
    (hx : p.exchange = ε'.x s) (hbound : ε'.number < 2 ^ 63)
    (hlifetime : ε'.expires - ε'.issued ≤ K.rotationMs) :
    K.Placed ε' s (c.install p (K.cert ε' s) (K.cert ε' s.other)) :=
  { h with
    localCert := rfl
    remoteCert := rfl
    epoch := hepoch
    expires := rfl
    secrets := fun hopen => ⟨(h.secrets hopen).1, hx, (h.secrets hopen).2.2⟩
    keys := fun _ he => nomatch he
    bound := hbound
    lifetime := hlifetime }

/-! ### Packets between the ends -/

theorem Pairing.Placed.cached (h : K.Placed ε s c) (hopen : c.endpoint.closed = false)
    {sender receiver : ℕ} {purpose : Str} {key : Key} {keys : List (KeyId × Key)}
    (hk : Cached c.endpoint c.remoteCert sender receiver purpose key keys) :
    key = derived (ε.x s) (K.cert ε s.other) (K.cert ε s) sender receiver purpose ∧
      ∀ entry ∈ keys, entry ∈ c.endpoint.keys ∨ ∃ sender receiver purpose,
        entry = ((K.peer s.other, sender, receiver, purpose, ε.number),
          derived (ε.x s) (K.cert ε s.other) (K.cert ε s) sender receiver purpose) := by
  have hpeer : c.remoteCert.body.peer = K.peer s.other := by
    rw [h.remoteCert]
    rfl
  rcases hk with ⟨hmem, rfl⟩ | ⟨_, rfl, rfl⟩
  · obtain ⟨_, _, _, heq⟩ := h.keys _ hmem
    simp only [Prod.mk.injEq] at heq
    obtain ⟨⟨_, rfl, rfl, rfl, _⟩, rfl⟩ := heq
    exact ⟨rfl, fun _ => .inl⟩
  · rw [(h.secrets hopen).2.1, h.localCert, hpeer, h.remoteCert, h.epoch]
    refine ⟨rfl, fun entry he => ?_⟩
    exact (mem_cacheKey he).imp_right fun heq => ⟨_, _, _, heq⟩

theorem Pairing.Placed.idle (h : K.Placed ε s c) (hopen : c.endpoint.closed = false) {e : Endpoint}
    (hidle : Idle c.endpoint c.remoteCert e) : K.Placed ε s { c with endpoint := e } := by
  cases hidle with
  | none => exact h
  | halt => exact { h with keys := fun _ he => nomatch he }
  | clock now => exact { h with }
  | key now hf hk => exact h.keyed (h.cached hopen hk).2

/-- What a call of `seal` or `open` may leave beside its result. -/
def Channel.Stays (K : Pairing) (ε : Era) (s : Side) (c c' : Channel) : Prop :=
  K.Placed ε s c' ∧ ∃ e, c' = { c with endpoint := e } ∧ e.closed = c.endpoint.closed ∧
    e.sequence = c.endpoint.sequence ∧ e.received = c.endpoint.received

theorem Pairing.Placed.stays (h : K.Placed ε s c) (hopen : c.endpoint.closed = false) {e : Endpoint}
    (hidle : Idle c.endpoint c.remoteCert e) : c.Stays K ε s { c with endpoint := e } := by
  refine ⟨h.idle hopen hidle, e, rfl, ?_⟩
  cases hidle with
  | none => exact ⟨rfl, rfl, rfl⟩
  | halt => exact ⟨rfl, rfl, rfl⟩
  | clock now => exact ⟨rfl, rfl, rfl⟩
  | key now hf hk => exact ⟨rfl, rfl, rfl⟩

/-- An end that is closed refuses. -/
theorem wp_closed {α : Type} {m : Effect Failure Endpoint α} {gate : Gate} {e : Endpoint}
    {Q : α → Endpoint → Prop} {E : Failure → Endpoint → Prop} (hclosed : e.closed = true)
    (hE : ∀ f, E f e) : wp (do Endpoint.require gate; m) Q E e := by
  simp only [Endpoint.require, wp_bind, wp_read, wp_check]
  exact ⟨fun hopen => absurd (.inl hclosed) hopen, fun _ => hE _⟩

theorem Channel.Stays.refl (h : K.Placed ε s c) : c.Stays K ε s c := ⟨h, _, rfl, rfl, rfl, rfl⟩

theorem Channel.Stays.halt (h : K.Placed ε s c) :
    c.Stays K ε s { c with endpoint := c.endpoint.halt } :=
  ⟨{ h with keys := fun _ he => nomatch he }, _, rfl, rfl, rfl, rfl⟩

theorem Channel.Stays.clock (h : K.Placed ε s c) (now : ℤ) :
    c.Stays K ε s { c with endpoint := { c.endpoint with lastNow := now } } :=
  ⟨{ h with }, _, rfl, rfl, rfl, rfl⟩

theorem Channel.Stays.trans (h : c.Stays K ε s c') (h' : c'.Stays K ε s c'') : c.Stays K ε s c'' := by
  obtain ⟨_, e, rfl, hclosed, hsequence, hreceived⟩ := h
  obtain ⟨hplaced, e', rfl, hclosed', hsequence', hreceived'⟩ := h'
  exact ⟨hplaced, e', rfl, hclosed'.trans hclosed, hsequence'.trans hsequence,
    hreceived'.trans hreceived⟩

/-- A reading of the clock. -/
theorem wp_now {e : Endpoint} {reading : Option ℤ} {Q : ℤ → Endpoint → Prop}
    {E : Failure → Endpoint → Prop}
    (h : ∀ now, reading = some now → e.lastNow ≤ now → Q now { e with lastNow := now })
    (hnone : ∀ f, E f e) (hhalt : ∀ f, E f e.halt) : wp (Endpoint.now reading) Q E e := by
  cases reading with
  | none => exact hnone _
  | some now =>
    simp only [Endpoint.now, wp_bind, wp_read, wp_ite, wp_modify, wp_raise, wp_pure]
    exact ⟨fun _ => hhalt _, fun hle => h now rfl (Int.not_lt.mp hle)⟩

/-- What `seal` of an end returns, and what it leaves. -/
structure Channel.SealedFrom (K : Pairing) (ε : Era) (s : Side) (c : Channel) (payload : List UInt8)
    (p : Packet) (c' : Channel) : Prop where
  packet : K.Carries ε s p
  said : p.ciphertext.payload = payload
  live : c.endpoint.closed = false
  idle : c.pending = none
  seq : p.header.seq = c.endpoint.sequence + 1
  placed : K.Placed ε s c'
  after : ∃ e, c' = { c with endpoint := e } ∧ e.closed = c.endpoint.closed ∧
    e.sequence = c.endpoint.sequence + 1 ∧ e.received = c.endpoint.received

theorem Pairing.Placed.wp_seal (h : K.Placed ε s c) (r : Reads) (payload : List UInt8) (purpose : Str) :
    wp (Channel.seal r payload purpose) (c.SealedFrom K ε s payload) (fun _ => c.Stays K ε s) c := by
  simp only [Channel.seal, wp_bind, wp_read, wp_check, onEndpoint, wp_zoom]
  refine ⟨fun hpending => wp_now (fun now _ _ => ⟨fun _ => ?_, fun _ => .clock h now⟩)
    (fun _ => .refl h) fun _ => .halt h, fun _ => .refl h⟩
  have h1 : K.Placed ε s { c with endpoint := { c.endpoint with lastNow := now } } := { h with }
  rw [Option.isNone_iff_eq_none] at hpending
  by_cases hclosed : c.endpoint.closed = true
  · exact wp_closed hclosed fun _ => .clock h now
  rw [Bool.not_eq_true] at hclosed
  refine wp_mono (Mesh.wp_seal _ _ _ _ _ _) ?_ fun _ e hidle =>
    (Channel.Stays.clock h now).trans (h1.stays hclosed hidle)
  rintro p e ⟨_, hnamed, hsize, hroom, now', key, keys, _, _, _, hkey, rfl, hheader, hbox, hsign⟩
  obtain ⟨rfl, hkeys⟩ := h1.cached hclosed hkey
  have hpeer : c.remoteCert.body.peer = K.peer s.other := by
    rw [h.remoteCert]
    rfl
  have hloc : c.endpoint.localCert.body.peer = K.peer s := by
    rw [h.localCert]
    rfl
  refine ⟨?_, ?_, hclosed, hpending, ?_, h1.keyed hkeys, _, rfl, rfl, rfl, rfl⟩
  · have hx := h.secrets hclosed
    refine { header := ?_, purpose := ?_, seq := ?_, size := ?_, box := ?_, signature := ?_ }
    · rw [hheader]
      simp only [Endpoint.header, h.boot, h.session, hpeer, h.epoch, h.localCert, h.expires]
      rfl
    · rw [hheader]
      exact hnamed
    · rw [hheader]
      exact ⟨Nat.succ_pos _, by simpa [Endpoint.header] using Nat.add_lt_of_lt_sub hroom⟩
    · rw [hbox]
      exact h.limit ▸ hsize
    · rw [hbox, hpeer, hloc, hheader]
      rfl
    · rw [hsign, hx.1]
  · rw [hbox]
  · rw [hheader]
    rfl

/-- What `open` of an end returns, and what it leaves. -/
structure Channel.OpenedFrom (K : Pairing) (ε : Era) (s : Side) (c : Channel) (p : Packet)
    (payload : List UInt8) (c' : Channel) : Prop where
  said : payload = p.ciphertext.payload
  epoch : p.header.epoch = ε.number
  placed : K.Placed ε s c'
  after : ∃ e, c' = { c with endpoint := e } ∧ e.closed = c.endpoint.closed ∧
    e.sequence = c.endpoint.sequence ∧
    e.received = Function.update c.endpoint.received (K.peer s.other) p.header.seq

theorem Pairing.Placed.wp_open (h : K.Placed ε s c) (r : Reads) (p : Packet) (purpose : Str) :
    wp (Channel.open r (.packet p) purpose) (c.OpenedFrom K ε s p) (fun _ => c.Stays K ε s) c := by
  simp only [Channel.open, wp_bind, wp_read, onEndpoint, wp_zoom]
  by_cases hclosed : c.endpoint.closed = true
  · exact wp_closed hclosed fun _ => .refl h
  rw [Bool.not_eq_true] at hclosed
  refine wp_mono (Mesh.wp_open _ _ _ _ _ _) ?_ fun _ e hidle => h.stays hclosed hidle
  rintro payload e ⟨_, q, now, key, keys, hq, _, _, _, hexpects, _, _, _, _, hkey, hbox, rfl⟩
  cases hq
  refine ⟨?_, ?_, h.keyed (h.cached hclosed hkey).2, _, rfl, rfl, rfl, ?_⟩
  · rw [hbox]
  · rw [hexpects.2.2.2.2.2.2.1, h.epoch]
  · rw [hexpects.2.2.1, h.remoteCert]
    rfl

/-- The end is authorized, and reads a clock that does not go back. -/
structure Channel.Live (c : Channel) (r : Reads) (now : ℤ) : Prop where
  opened : c.endpoint.closed = false
  running : c.endpoint.frozen = false
  verified : c.endpoint.verified = true
  gate : r.gate = .approved
  first : r.first = some now
  later : c.endpoint.lastNow ≤ now

/-- The packet and its certificate are within their lifetimes. -/
def Packet.Timely (p : Packet) (now : ℤ) : Prop :=
  p.header.issued ≤ now ∧ now < p.header.expires ∧ p.header.certificate.body.issued ≤ now

theorem wp_admitted {α : Type} {e : Endpoint} {gate : Gate} {reading : Option ℤ} {now : ℤ}
    {m : ℤ → Effect Failure Endpoint α} {Q : α → Endpoint → Prop} {E : Failure → Endpoint → Prop}
    (hopen : e.closed = false) (hrunning : e.frozen = false) (hverified : e.verified = true)
    (hgate : gate = .approved) (hreading : reading = some now) (hlater : e.lastNow ≤ now)
    (h : wp (m now) Q E { e with lastNow := now }) :
    wp (do Endpoint.require gate; let now ← Endpoint.now reading; m now) Q E e := by
  subst hgate hreading
  simp only [Endpoint.require, Endpoint.now, wp_bind, wp_read, wp_check, wp_ite, wp_modify, wp_pure,
    wp_raise]
  refine ⟨fun _ => ⟨fun _ => ⟨fun hback => absurd hback (Int.not_lt.mpr hlater), fun _ => h⟩,
    fun hrefused => absurd trivial hrefused⟩, fun hshut => absurd ?_ hshut⟩
  simp [hopen, hrunning, hverified]

/-- A certificate of the pair passes its check. -/
theorem Pairing.Sound.certificate (hK : K.Sound) (hbound : ε.number < 2 ^ 63)
    (hlifetime : ε.expires - ε.issued ≤ K.rotationMs) {now : ℤ} (hissued : ε.issued ≤ now)
    (hexpires : now < ε.expires) {expected : CertBody} (hexpected : expected.peer = K.peer s ∧
      expected.label = (K.identity s).body.label ∧
      expected.sourceDigest = (K.identity s).body.sourceDigest ∧ expected.ed25519 = K.ed s) :
    certificate (K.cert ε s) K.ca K.boot K.session now .epoch (some expected) =
      .ok (K.cert ε s).body := by
  obtain ⟨hpeer, hlabel, hdigest, hed⟩ := hexpected
  have hms : ε.expires - ε.issued ≤ sessionMs := by
    have := hK.rotation
    rw [sessionMs]
    omega
  simp only [Mesh.certificate, Pairing.cert, epochCert, issue, hK.labels, hK.digests, verify]
  simp_all [Pairing.peer, Pairing.ed]

/-- Both sides derive one key. -/
theorem Pairing.Sound.derived_comm (hK : K.Sound) (sender receiver : ℕ) (purpose : Str) :
    derived (ε.x s) (K.cert ε s.other) (K.cert ε s) sender receiver purpose =
      derived (ε.x s.other) (K.cert ε s) (K.cert ε s.other) sender receiver purpose := by
  have hne : (K.cert ε s).body.peer ≠ (K.cert ε s.other).body.peer := by
    cases s with
    | parent => exact hK.distinct
    | child => exact hK.distinct.symm
  simp only [derived, Key.mk.injEq]
  refine ⟨Sym2.eq_swap, ?_, rfl, rfl, rfl, trivial, trivial, trivial⟩
  rcases Nat.lt_or_gt_of_ne hne with hlt | hlt
  · rw [if_neg (Nat.lt_asymm hlt), if_pos hlt]
  · rw [if_pos hlt, if_neg (Nat.lt_asymm hlt)]

/-- A packet of the era that is new and timely is opened. -/
theorem Pairing.Placed.opens (h : K.Placed ε s c) (hK : K.Sound) {r : Reads} {now : ℤ} {p : Packet}
    (hp : K.Carries ε s.other p) (hlive : c.Live r now) (htimely : p.Timely now)
    (hnew : c.endpoint.received (K.peer s.other) < p.header.seq) :
    wp (Channel.open r (.packet p) p.header.purpose)
      (fun payload _ => payload = p.ciphertext.payload) (fun _ _ => False) c := by
  simp only [Channel.open, wp_bind, wp_read, onEndpoint, wp_zoom]
  refine wp_admitted hlive.opened hlive.running hlive.verified hlive.gate hlive.first hlive.later ?_
  have hcert : p.header.certificate = K.cert ε s.other := by rw [hp.header]
  have hexpires : p.header.expires = min (p.header.issued + packetMs) ε.expires := by rw [hp.header]
  obtain ⟨hissued, hbefore, hcertified⟩ := htimely
  rw [hcert] at hcertified
  have hlt : now < ε.expires := by omega
  have hremote : c.remoteCert.body.peer = K.peer s.other ∧
      c.remoteCert.body.label = (K.identity s.other).body.label ∧
      c.remoteCert.body.sourceDigest = (K.identity s.other).body.sourceDigest ∧
      c.remoteCert.body.ed25519 = K.ed s.other := by
    rw [h.remoteCert]
    exact ⟨rfl, rfl, rfl, rfl⟩
  have hvalid := hK.certificate (s := s.other) h.bound h.lifetime hcertified hlt hremote
  have hpeer : c.remoteCert.body.peer = K.peer s.other := by
    rw [h.remoteCert]
    rfl
  have hloc : c.endpoint.localCert.body.peer = K.peer s := by
    rw [h.localCert]
    rfl
  have hheader : p.header.boot = K.boot ∧ p.header.session = K.session ∧
      p.header.sender = K.peer s.other ∧ p.header.receiver = K.peer s ∧
      p.header.epoch = ε.number ∧ p.header.nonce = (ε.noncePrefix s.other, p.header.seq) := by
    rw [hp.header]
    exact ⟨rfl, rfl, rfl, by rw [Side.other_other], rfl, rfl⟩
  obtain ⟨hboot, hsession, hsender, hreceiver, hepoch, hnonce⟩ := hheader
  have hexpects : { c.endpoint with lastNow := now }.expects now p.header c.remoteCert
      p.header.purpose := by
    refine ⟨hboot.trans h.boot.symm, hsession.trans h.session.symm, hsender.trans hpeer.symm,
      hreceiver.trans hloc.symm, hp.purpose, rfl, hepoch.trans h.epoch.symm, hp.seq.1, hp.seq.2,
      ⟨hissued, hbefore, ?_⟩, ?_⟩
    · rw [hexpires]
      exact h.expires ▸ min_le_right _ _
    · rw [hexpires]
      exact sub_le_iff_le_add'.mpr (min_le_left _ _)
  refine wp_bind.mpr (wp_pass (by rwa [h.expires]) (wp_bind.mpr (wp_bind.mpr (wp_pass hexpects ?_))))
  refine wp_got (a := (K.cert ε s.other).body) ?_ ?_
  · rw [hcert]
    rwa [← h.caPublic, ← h.boot, ← h.session] at hvalid
  refine wp_pass ⟨hcert.trans h.remoteCert.symm, h.epoch.symm⟩ (wp_pass hnonce (wp_pass ?_
    (wp_pass (h.limit.symm ▸ hp.size) ?_)))
  · rwa [hsender]
  rw [wp_check]
  refine ⟨fun _ => ?_, fun hsign => absurd ?_ hsign⟩
  · rw [wp_bind]
    refine wp_key fun key keys hkey => ?_
    obtain ⟨rfl, _⟩ := h.cached hlive.opened hkey
    have hdecrypt : p.ciphertext.decrypt (derived (ε.x s) (K.cert ε s.other) (K.cert ε s)
        p.header.sender p.header.receiver p.header.purpose) p.header.nonce p.header =
          some p.ciphertext.payload := by
      rw [hsender, hreceiver, hK.derived_comm, Box.decrypt, if_pos]
      have hbox := hp.box
      rw [Side.other_other] at hbox
      rw [hbox]
      exact ⟨rfl, rfl, rfl⟩
    rw [hdecrypt]
    rfl
  · exact decide_eq_true hp.signature

end Placed

/-! ### A pair that was made -/

section Made

variable {prefixes : Prefixes} {a : Authority}

/-- The identity of a peer is one of the session. -/
structure Endpoint.Known (a : Authority) (e : Endpoint) : Prop where
  ed : e.localIdentity.body.ed25519 = e.ed
  expires : e.localIdentity.body.expires = a.sessionExpires
  label : isLabel e.localIdentity.body.label = true
  digest : isDigest e.localIdentity.body.sourceDigest = true

/-- A peer holds the key and the certificate of the epoch. -/
structure Endpoint.Enrolled (a : Authority) (e : Endpoint) : Prop extends e.Known a where
  cert : ∃ noncePrefix, e.localCert =
    epochCert a.ca a.boot a.session e.localIdentity e.x noncePrefix a.epoch a.issued a.expires
  drawn : ∃ m < a.drawn, e.x = some m

structure Authority.Ready (a : Authority) : Prop where
  verified : a.verified = true
  lifetime : a.expires - a.issued ≤ a.rotationMs
  peers : ∀ e ∈ a.peers, e.Enrolled a

theorem ready_rotate (hverified : a.verified = true) (h : ∀ e ∈ a.peers, e.Known a) (now : ℤ) :
    (a.rotate prefixes now).Ready := by
  refine ⟨hverified, sub_le_iff_le_add'.mpr (min_le_left _ _), fun e he => ?_⟩
  obtain ⟨i, hi, rfl⟩ := List.mem_mapIdx.mp he
  have hknown := h _ (List.getElem_mem hi)
  refine { ed := hknown.ed, expires := hknown.expires, label := hknown.label, digest := hknown.digest,
           cert := ⟨prefixes (a.drawn + i), ?_⟩, drawn := ⟨_, Nat.add_lt_add_left hi _, rfl⟩ }
  simp only [Endpoint.rotate, epochCert, Endpoint.erase, hknown.ed]
  rfl

theorem known_renew (h : ∀ e ∈ a.peers, e.Known a) (now : ℤ) :
    ∀ e ∈ (a.renew prefixes now).peers, e.Known (a.renew prefixes now) := by
  intro e he
  obtain ⟨i, hi, rfl⟩ := List.mem_mapIdx.mp he
  have hknown := h _ (List.getElem_mem hi)
  exact ⟨rfl, rfl, hknown.label, hknown.digest⟩

theorem Authority.Ready.tick (h : a.Ready) (clock renewClock : Option ℤ) :
    wp (tick prefixes (ungated clock renewClock)) (fun _ => Authority.Ready) (fun _ _ => True) a := by
  rw [Mesh.tick]
  simp only [wp_bind, wp_read, wp_ite, wp_pure]
  refine ⟨fun _ => h, fun _ => ?_⟩
  rw [tickOpen]
  simp only [wp_bind, wp_read, wp_ite, wp_modify, wp_raise]
  refine wp_clockMs (fun now => ⟨fun _ => trivial, fun _ => ⟨fun _ => ?_, fun _ => ⟨fun _ => trivial,
    fun _ => ?_⟩⟩⟩) fun _ => trivial
  · unfold Mesh.renewSession
    simp only [wp_bind, wp_read, wp_check, ungated, if_true]
    refine ⟨fun _ => wp_clockMs (fun now => ?_) fun _ => trivial, fun _ => trivial⟩
    exact ready_rotate (a := a.renew prefixes now) h.verified (known_renew (fun e he => (h.peers e he).toKnown) now) now
  · simp only [ungated, if_true]
    split
    · exact ready_rotate h.verified (fun e he => (h.peers e he).toKnown) now
    · exact h

theorem Authority.Ready.enroll (h : a.Ready) (label : Str) (clock renewClock : Option ℤ) :
    wp (enroll prefixes label [] (ungated clock renewClock)) (fun _ => Authority.Ready)
      (fun _ _ => True) a := by
  unfold Mesh.enroll
  simp only [wp_bind, wp_check, wp_read, wp_modify, wp_pure]
  refine ⟨fun hlabel => ⟨fun hdigest => ?_, fun _ => trivial⟩, fun _ => trivial⟩
  refine wp_mono (h.tick clock renewClock) (fun _ b hb => ⟨fun _ => ?_, fun _ => trivial⟩)
    fun _ _ _ => trivial
  refine ⟨hb.verified, hb.lifetime, fun e he => ?_⟩
  rcases List.mem_append.mp he with he | he
  · have hold := hb.peers e he
    obtain ⟨m, hm, hx⟩ := hold.drawn
    exact { hold with drawn := ⟨m, Nat.lt_add_right 4 hm, hx⟩ }
  · obtain rfl := List.mem_singleton.mp he
    exact { ed := rfl, expires := rfl, label := hlabel, digest := hdigest
            cert := ⟨prefixes (b.drawn + 3), rfl⟩
            drawn := ⟨b.drawn + 1, Nat.add_lt_add_left (by decide) _, rfl⟩ }

/-- Two ends that were just made, with what they share. -/
structure Paired (K : Pairing) (ε : Era) (n : ℕ) (parent child : Channel) : Prop where
  sound : K.Sound
  drawn : ε.Drawn n
  atParent : K.Placed ε .parent parent
  atChild : K.Placed ε .child child
  fresh : ∃ b b' ca v v', parent = Bootstrap.setup b ca true v ∧ child = Bootstrap.setup b' none false v'

theorem certificate_epoch {cert : Cert} {ca : Secret} {boot session : ℕ} {now : ℤ}
    {kind : CertKind} {expected : Option CertBody} {body : CertBody}
    (h : certificate cert ca boot session now kind expected = .ok body) :
    cert.body.epoch < 2 ^ 63 := by
  unfold certificate at h
  dsimp only at h
  split at h
  · cases h
  · rename_i hchecks
    simp only [not_or, not_not] at hchecks
    exact hchecks.2.2.2.2.2.1

theorem fromBootstrap_ok {b : Bootstrap} {clock : Option ℤ} {verified : Bool} {child : Channel}
    (h : fromBootstrap b clock verified = .ok child) :
    b.rotationMs ≤ 10000 ∧ b.localIdentity.body.peer ≠ b.remoteIdentity.body.peer ∧
      b.localCert.body.epoch < 2 ^ 63 ∧ child = b.setup none false verified := by
  rw [fromBootstrap.eq_def, Raising.if_error_ok, not_not] at h
  obtain ⟨hrotation, h⟩ := h
  cases clock with
  | none => cases h
  | some now =>
    obtain ⟨localId, hlocal, h⟩ := Raising.bind_ok.mp h
    obtain ⟨remoteId, hremote, h⟩ := Raising.bind_ok.mp h
    obtain ⟨loc, hloc, h⟩ := Raising.bind_ok.mp h
    obtain ⟨remote, _, h⟩ := Raising.bind_ok.mp h
    rw [Raising.if_error_ok, not_or] at h
    obtain ⟨⟨hpeers, _⟩, h⟩ := h
    rw [certificate_body hlocal, certificate_body hremote] at hpeers
    exact ⟨hrotation.2, hpeers, certificate_epoch hloc, (Except.ok.inj h).symm⟩

theorem wp_createPair {parentLabel childLabel : Str} {r r' : Option ℤ × Option ℤ} {verified : Bool}
    (h : a.Ready) :
    wp (createPair prefixes parentLabel childLabel r r' verified)
      (fun made a' => ∃ b : Authority, b.Ready ∧ a'.drawn = b.drawn ∧ ∃ parent ∈ b.peers,
        ∃ child ∈ b.peers, made =
          ((b.bootstrap parent child).setup b.ca true verified, b.bootstrap child parent))
      (fun _ _ => True) a := by
  simp only [createPair, wp_bind, wp_read]
  refine wp_mono (h.enroll _ _ _) (fun parentId b hb => ?_) fun _ _ _ => trivial
  refine wp_mono (hb.enroll _ _ _) (fun childId d hd => ?_) fun _ _ _ => trivial
  split
  · rename_i parent child hparent hchild
    exact ⟨d, hd, rfl, parent, (peer?_mem hparent).1, child, (peer?_mem hchild).1, rfl⟩
  · trivial

/-- The two ends of a pair share what they need. -/
theorem paired {rotationMs : ℕ} {now : ℤ} {parentLabel childLabel : Str}
    {r r' : Option ℤ × Option ℤ} {verified verified' : Bool} {clock : Option ℤ}
    {parent child : Channel} {b : Bootstrap}
    (hpair : createPair prefixes parentLabel childLabel r r' verified
      (World.start true rotationMs now).authority = (.ok (parent, b), a))
    (hboot : fromBootstrap b clock verified' = .ok child) :
    ∃ K ε, Paired K ε a.drawn parent child := by
  have hready : (World.start true rotationMs now).authority.Ready :=
    ⟨rfl, by simp [World.start], fun e he => absurd he List.not_mem_nil⟩
  obtain ⟨d, hd, hdrawn, e, he, e', he', hmade⟩ := wp_ok (wp_createPair hready) hpair
  obtain ⟨rfl, rfl⟩ := Prod.mk.inj hmade
  obtain ⟨hrotation, hpeers, hbound, rfl⟩ := fromBootstrap_ok hboot
  have hparent := hd.peers e he
  have hchild := hd.peers e' he'
  obtain ⟨np, hcert⟩ := hparent.cert
  obtain ⟨np', hcert'⟩ := hchild.cert
  refine ⟨{ ca := d.ca, boot := d.boot, session := d.session, rotationMs := d.rotationMs,
            identity := fun | .parent => e.localIdentity | .child => e'.localIdentity },
    { number := d.epoch, issued := d.issued, expires := d.expires,
      x := fun | .parent => e.x | .child => e'.x
      noncePrefix := fun | .parent => np | .child => np' }, ?_⟩
  have hnumber : d.epoch < 2 ^ 63 := by
    change e'.localCert.body.epoch < _ at hbound
    rwa [hcert'] at hbound
  refine { sound := ?_, drawn := ?_, atParent := ?_, atChild := ?_, fresh := ⟨_, _, _, _, _, rfl, rfl⟩ }
  · refine ⟨hpeers.symm, fun s => ?_, fun s => ?_, hparent.expires.trans hchild.expires.symm, hrotation⟩
    · cases s with
      | parent => exact hparent.label
      | child => exact hchild.label
    · cases s with
      | parent => exact hparent.digest
      | child => exact hchild.digest
  · rw [hdrawn]
    intro s
    cases s with
    | parent => exact hparent.drawn
    | child => exact hchild.drawn
  · refine { caPublic := rfl, boot := rfl, session := rfl, rotation := rfl, localIdentity := rfl,
             remoteIdentity := rfl, localCert := hcert, remoteCert := hcert', epoch := ?_, expires := ?_,
             role := rfl, limit := rfl, secrets := fun _ => ⟨hparent.ed.symm, rfl, fun _ => rfl⟩,
             keys := fun _ he => (nomatch he), bound := hnumber, lifetime := hd.lifetime }
    · exact congrArg (·.body.epoch) hcert
    · exact congrArg (·.body.expires) hcert
  · refine { caPublic := rfl, boot := rfl, session := rfl, rotation := rfl, localIdentity := rfl,
             remoteIdentity := rfl, localCert := hcert', remoteCert := hcert, epoch := ?_, expires := ?_,
             role := rfl, limit := rfl, secrets := fun _ => ⟨hchild.ed.symm, rfl, by simp⟩,
             keys := fun _ he => (nomatch he), bound := hnumber, lifetime := hd.lifetime }
    · exact congrArg (·.body.epoch) hcert'
    · exact congrArg (·.body.expires) hcert'

end Made

end Angerona.Mesh
