import Angerona.Mesh.Authority
import Angerona.Mesh.Packets

/-!
    What the packets of one authority carry.

    A world is an authority with everything its peers sealed and opened. The network may present any
    frame; a box under a key that two peers derived can only be one that was sealed. Rotation and
    renewal reset sequence numbers, replay state and keys together and advance the epoch, so what
    was sealed or opened before is told apart by its epoch. -/

namespace Angerona.Mesh
open Text Effect Transition

/-! ### Worlds -/

/-- A packet a peer sealed, with the session and the epoch of the authority then. -/
structure Sealed where
  packet : Packet
  sender : ℕ
  receiver : ℕ
  purpose : Str
  payload : List UInt8
  session : ℕ
  epoch : ℕ

structure Opened where
  receiver : ℕ
  packet : Packet

structure World where
  authority : Authority
  sealed : List Sealed
  opened : List Opened

/-- The calls, with the readings of the clock and the gate they take. -/
inductive Call where
  | enroll (label sourceDigest : Str) (r : Readings)
  | peerSeal (sender receiver : ℕ) (payload : List UInt8) (purpose : Str) (r : Readings) (gate : Gate)
      (clock : Option ℤ)
  | peerOpen (receiver : ℕ) (envelope : Envelope) (purpose : Str) (expectedSender : Option ℕ)
      (r : Readings) (gate : Gate) (clock : Option ℤ)
  | enter (r : Readings) (clock : Option ℤ)
  | leave
  | tick (r : Readings)
  | renewSession (gate : Gate) (clock : Option ℤ)
  | setVerified (value : Bool) (gate : Gate) (clock : Option ℤ) (gate' : Gate) (clock' : Option ℤ)
  | freeze
  | close
  | closePeer (id : ℕ)

variable (prefixes : Prefixes)

/-- A call; it may raise and keep what it changed. -/
def World.exec (w : World) : Call → World
  | .enroll label digest r => { w with authority := (enroll prefixes label digest r w.authority).2 }
  | .peerSeal sender receiver payload purpose r gate clock =>
    match peerSeal prefixes sender receiver payload purpose r gate clock w.authority with
    | (.ok packet, a) =>
      { w with
        authority := a
        sealed := w.sealed ++
          [⟨packet, sender, receiver, purpose, payload, a.session, a.epoch⟩] }
    | (.error _, a) => { w with authority := a }
  | .peerOpen receiver envelope purpose expected r gate clock =>
    match peerOpen prefixes receiver envelope purpose expected r gate clock w.authority, envelope with
    | (.ok _, a), .packet p => { w with authority := a, opened := w.opened ++ [⟨receiver, p⟩] }
    | (_, a), _ => { w with authority := a }
  | .enter r clock => { w with authority := (enter prefixes r clock w.authority).2 }
  | .leave => { w with authority := (leave w.authority).2 }
  | .tick r => { w with authority := (tick prefixes r w.authority).2 }
  | .renewSession gate clock =>
    { w with authority := (renewSession prefixes gate clock w.authority).2 }
  | .setVerified value gate clock gate' clock' =>
    { w with authority := (setVerified prefixes value gate clock gate' clock' w.authority).2 }
  | .freeze => { w with authority := w.authority.freeze }
  | .close => { w with authority := w.authority.close }
  | .closePeer id => { w with authority := (closePeer id w.authority).2 }

def World.Step (w : World) (call : Call) (w' : World) : Prop := w.exec prefixes call = w'

/-- A key that two peers derived: both private keys were drawn, and neither was wiped. -/
def Key.Secret (k : Key) (drawn : ℕ) : Prop :=
  ∃ m n, m < drawn ∧ n < drawn ∧ k.shared = s(some m, some n)

/-- What is presented to a receiver: a box under a secret key is one that was sealed. -/
def Network (w : World) : Call → Prop
  | .peerOpen receiver (.packet p) purpose expected r gate clock =>
    p.ciphertext.key.Secret
      (w.exec prefixes (.peerOpen receiver (.packet p) purpose expected r gate clock)).authority.drawn →
      ∃ s ∈ w.sealed, s.packet.ciphertext = p.ciphertext
  | _ => True

/-- A new authority, its clock at `now`. -/
def World.start (verified : Bool) (rotationMs : ℕ) (now : ℤ) : World where
  authority :=
    { ca := some 0
      boot := 1
      session := 2
      peers := []
      labels := []
      epoch := 0
      issued := now
      expires := now + rotationMs
      sessionExpires := now + sessionMs
      rotationMs
      verified
      closed := false
      transactionDepth := 0
      drawn := 3 }
  sealed := []
  opened := []

/-! ### The invariant -/

/-- What a sealed packet says. -/
structure Sealed.Sound (s : Sealed) : Prop where
  header : s.packet.ciphertext.header = s.packet.header
  payload : s.packet.ciphertext.payload = s.payload
  sender : s.packet.header.sender = s.sender ∧ s.packet.ciphertext.key.sender = s.sender
  receiver : s.packet.header.receiver = s.receiver
  purpose : s.packet.header.purpose = s.purpose
  session : s.packet.header.session = s.session
  epoch : s.packet.header.epoch = s.epoch ∧ s.packet.ciphertext.key.epoch = s.epoch
  nonce : s.packet.ciphertext.nonce.2 = s.packet.header.seq
  signature : s.packet.signature =
    ⟨s.packet.header.certificate.body.ed25519, (s.packet.header, s.packet.ciphertext)⟩

/-- The key and the nonce of a sealed packet. -/
def Sealed.used (s : Sealed) : Key × Nonce := (s.packet.ciphertext.key, s.packet.ciphertext.nonce)

/-- What holds between a renewal and its rotation. -/
structure Base (a : Authority) (sealed : List Sealed) (opened : List Opened) : Prop where
  ids : (a.peers.map Endpoint.peerId).Nodup
  session : ∀ e ∈ a.peers, e.session = a.session
  drawn : ∀ e ∈ a.peers, e.peerId < a.drawn
  packets : ∀ s ∈ sealed, s.Sound ∧ s.epoch ≤ a.epoch ∧ s.sender ∈ a.peers.map Endpoint.peerId
  distinct : (sealed.map Sealed.used).Nodup
  past : ∀ o ∈ opened, o.packet.header.epoch ≤ a.epoch ∧ o.receiver ∈ a.peers.map Endpoint.peerId

/-- A peer is in the current epoch. -/
structure Endpoint.Current (a : Authority) (sealed : List Sealed) (opened : List Opened)
    (e : Endpoint) : Prop where
  epoch : e.epoch = a.epoch
  cert : e.localCert.body.peer = e.peerId ∧ e.localCert.body.epoch = a.epoch
  exchange : ∃ n < a.drawn, e.localCert.body.x25519 = some n
  usable : e.frozen = false → e.x = e.localCert.body.x25519
  signing : e.closed = false → e.ed = e.localCert.body.ed25519
  keys : ∀ entry ∈ e.keys, entry.2.epoch = entry.1.2.2.2.2 ∧ entry.2.sender = entry.1.2.1 ∧
    entry.2.Secret a.drawn
  sent : ∀ s ∈ sealed, s.sender = e.peerId → s.epoch = a.epoch → s.packet.header.seq ≤ e.sequence
  seen : ∀ o ∈ opened, o.receiver = e.peerId → o.packet.header.epoch = a.epoch →
    o.packet.header.seq ≤ e.received o.packet.header.sender

structure Sound (a : Authority) (sealed : List Sealed) (opened : List Opened) : Prop extends
    Base a sealed opened where
  current : ∀ e ∈ a.peers, e.Current a sealed opened

/-- The packet was sealed by an enrolled peer for the receiver, under the purpose, in the current
    epoch and session, with the payload, and the receiver did not open it before. -/
structure Authentic (a : Authority) (opened : List Opened) (receiver : ℕ) (purpose : Str)
    (payload : List UInt8) (s : Sealed) : Prop where
  said : s.payload = payload
  enrolled : s.sender ∈ a.peers.map Endpoint.peerId
  meant : s.receiver = receiver
  under : s.purpose = purpose
  session : s.session = a.session
  epoch : s.epoch = a.epoch
  once : ∀ o ∈ opened, ¬(o.receiver = receiver ∧ o.packet = s.packet)

section Preserved

variable {α : Type} {prefixes : Prefixes} {a : Authority} {sealed : List Sealed} {opened : List Opened}

theorem Key.Secret.mono {k : Key} {m n : ℕ} (h : k.Secret m) (hle : m ≤ n) : k.Secret n := by
  obtain ⟨i, j, hi, hj, hk⟩ := h
  exact ⟨i, j, hi.trans_le hle, hj.trans_le hle, hk⟩

/-! ### Rotation, renewal, freezing -/

theorem rotate_ids (now : ℤ) :
    (a.rotate prefixes now).peers.map Endpoint.peerId = a.peers.map Endpoint.peerId := by
  refine List.ext_getElem (by simp [Authority.rotate]) fun i _ _ => ?_
  simp [Authority.rotate, Endpoint.rotate, Endpoint.peerId, Endpoint.erase]

theorem renew_ids (now : ℤ) :
    (a.renew prefixes now).peers.map Endpoint.peerId = a.peers.map Endpoint.peerId := by
  refine List.ext_getElem (by simp [Authority.renew]) fun i _ _ => ?_
  simp [Authority.renew, Endpoint.renew, Endpoint.peerId, issue]

/-- A rotation makes every peer current. -/
theorem Base.rotate (h : Base a sealed opened) (now : ℤ) :
    Sound (a.rotate prefixes now) sealed opened := by
  have hids : (a.rotate prefixes now).peers.map Endpoint.peerId = a.peers.map Endpoint.peerId :=
    rotate_ids now
  have hlater : ∀ n, n ≤ a.epoch → n ≠ (a.rotate prefixes now).epoch := fun n hn =>
    (Nat.lt_succ_of_le hn).ne
  refine { ids := hids ▸ h.ids, session := ?_, drawn := ?_, packets := ?_, distinct := h.distinct,
           past := ?_, current := ?_ }
  · intro e he
    obtain ⟨i, hi, rfl⟩ := List.mem_mapIdx.mp he
    exact h.session a.peers[i] (List.getElem_mem hi)
  · intro e he
    obtain ⟨i, hi, rfl⟩ := List.mem_mapIdx.mp he
    exact (h.drawn _ (List.getElem_mem hi)).trans_le (Nat.le_add_right _ _)
  · intro s hs
    obtain ⟨hsound, hle, hmem⟩ := h.packets s hs
    exact ⟨hsound, hle.trans (Nat.le_succ _), hids ▸ hmem⟩
  · intro o ho
    obtain ⟨hle, hmem⟩ := h.past o ho
    exact ⟨hle.trans (Nat.le_succ _), hids ▸ hmem⟩
  · intro e he
    obtain ⟨i, hi, rfl⟩ := List.mem_mapIdx.mp he
    refine ⟨rfl, ⟨rfl, rfl⟩, ⟨_, Nat.add_lt_add_left hi _, rfl⟩, fun _ => rfl, fun _ => rfl, ?_, ?_, ?_⟩
    · exact fun entry hentry => absurd hentry List.not_mem_nil
    · exact fun s hs _ hepoch => absurd hepoch (hlater _ (h.packets s hs).2.1)
    · exact fun o ho _ hepoch => absurd hepoch (hlater _ (h.past o ho).1)

theorem Base.renew (h : Base a sealed opened) (now : ℤ) :
    Base (a.renew prefixes now) sealed opened := by
  have hids : (a.renew prefixes now).peers.map Endpoint.peerId = a.peers.map Endpoint.peerId :=
    renew_ids now
  refine ⟨hids ▸ h.ids, ?_, ?_, hids ▸ h.packets, h.distinct, hids ▸ h.past⟩
  · intro e he
    obtain ⟨i, hi, rfl⟩ := List.mem_mapIdx.mp he
    rfl
  · intro e he
    obtain ⟨i, hi, rfl⟩ := List.mem_mapIdx.mp he
    have := h.drawn _ (List.getElem_mem hi)
    change _ < a.drawn + 2 + 2 * a.peers.length
    exact this.trans_le (by omega)

/-- A change of the peers that keeps what they sent, saw and hold. -/
theorem Sound.mapPeers (h : Sound a sealed opened) {a' : Authority} {f : Endpoint → Endpoint}
    (hpeers : a'.peers = a.peers.map f) (hsame : a'.session = a.session ∧ a'.epoch = a.epoch ∧
      a'.drawn = a.drawn)
    (hf : ∀ e ∈ a.peers, (f e).peerId = e.peerId ∧ (f e).session = e.session ∧
      (e.Current a sealed opened → (f e).Current a sealed opened)) :
    Sound a' sealed opened := by
  obtain ⟨hsession, hepoch, hdrawn⟩ := hsame
  have hids : a'.peers.map Endpoint.peerId = a.peers.map Endpoint.peerId := by
    rw [hpeers, List.map_map]
    exact List.map_congr_left fun e he => (hf e he).1
  have hmem : ∀ e' ∈ a'.peers, ∃ e ∈ a.peers, f e = e' := by
    intro e' he'
    rw [hpeers] at he'
    exact List.mem_map.mp he'
  refine { ids := hids ▸ h.ids, session := ?_, drawn := ?_, packets := ?_, distinct := h.distinct,
           past := ?_, current := ?_ }
  · intro e' he'
    obtain ⟨e, he, rfl⟩ := hmem e' he'
    rw [(hf e he).2.1, h.session e he, hsession]
  · intro e' he'
    obtain ⟨e, he, rfl⟩ := hmem e' he'
    rw [(hf e he).1, hdrawn]
    exact h.drawn e he
  · rw [hids, hepoch]
    exact h.packets
  · rw [hids, hepoch]
    exact h.past
  · intro e' he'
    obtain ⟨e, he, rfl⟩ := hmem e' he'
    obtain ⟨hep, hcert, hx, husable, hsigning, hkeys, hsent, hseen⟩ := (hf e he).2.2 (h.current e he)
    exact ⟨hepoch ▸ hep, hepoch ▸ hcert, hdrawn ▸ hx, husable, hsigning, hdrawn ▸ hkeys,
      hepoch ▸ hsent, hepoch ▸ hseen⟩

theorem Sound.freeze (h : Sound a sealed opened) : Sound a.freeze sealed opened := by
  refine h.mapPeers rfl ⟨rfl, rfl, rfl⟩ fun e he => ⟨rfl, rfl, fun hc => ?_⟩
  exact { hc with
    usable := fun hf => Bool.noConfusion hf
    keys := fun _ hentry => absurd hentry List.not_mem_nil }

theorem current_close {e : Endpoint} (hc : e.Current a sealed opened) :
    e.close.Current a sealed opened :=
  { hc with
    usable := fun hf => Bool.noConfusion hf
    signing := fun hf => Bool.noConfusion hf
    keys := fun _ hentry => absurd hentry List.not_mem_nil }

theorem Sound.close (h : Sound a sealed opened) : Sound a.close sealed opened :=
  h.mapPeers rfl ⟨rfl, rfl, rfl⟩ fun _ _ => ⟨rfl, rfl, current_close⟩

/-! ### Calls of the authority -/

/-- Both outcomes keep the invariant. -/
abbrev Keeps (m : Action α) (a : Authority) (sealed : List Sealed) (opened : List Opened) : Prop :=
  wp m (fun _ a' => Sound a' sealed opened) (fun _ a' => Sound a' sealed opened) a

theorem wp_clockMs {reading : Option ℤ} {Q : ℤ → Authority → Prop}
    {E : Failure → Authority → Prop} (hQ : ∀ now, Q now a) (hE : ∀ f, E f a) :
    wp (clockMs reading) Q E a := by
  cases reading with
  | none => exact hE _
  | some now => exact hQ now

theorem rotate_exchange (now : ℤ) :
    ∀ e ∈ (a.rotate prefixes now).peers, e.x = e.localCert.body.x25519 := by
  intro e he
  obtain ⟨i, hi, rfl⟩ := List.mem_mapIdx.mp he
  rfl

/-- A session that was renewed was rotated. -/
theorem Sound.renewSession (h : Sound a sealed opened) (gate : Gate) (clock : Option ℤ) :
    wp (renewSession prefixes gate clock)
      (fun _ a' => Sound a' sealed opened ∧ ∀ e ∈ a'.peers, e.x = e.localCert.body.x25519)
      (fun _ a' => Sound a' sealed opened) a := by
  unfold Mesh.renewSession
  simp only [wp_bind, wp_read, wp_check]
  refine ⟨fun _ => ?_, fun _ => h⟩
  cases gate with
  | raised => exact h
  | refused => exact h.freeze
  | approved =>
    simp only [wp_bind]
    refine wp_clockMs (fun now => ⟨?_, rotate_exchange now⟩) fun _ => h
    exact (h.toBase.renew now).rotate now

theorem Sound.tick (h : Sound a sealed opened) (r : Readings) :
    Keeps (tick prefixes r) a sealed opened := by
  rw [Keeps, Mesh.tick]
  simp only [wp_bind, wp_read, wp_ite, wp_pure]
  refine ⟨fun _ => h, fun _ => ?_⟩
  rw [tickOpen]
  simp only [wp_bind, wp_read, wp_ite, wp_modify, wp_raise]
  refine wp_clockMs (fun now => ⟨fun _ => h.freeze, fun _ => ?_⟩) fun _ => h
  have hgate : Sound (if r.gate = .approved then a else a.freeze) sealed opened := by
    split
    · exact h
    · exact h.freeze
  generalize (if r.gate = .approved then a else a.freeze) = b at hgate
  refine ⟨fun _ => wp_mono (hgate.renewSession _ _) (fun _ _ hs => hs.1) fun _ _ hs => hs, fun _ => ⟨fun _ => hgate, fun _ => ?_⟩⟩
  split
  · exact hgate.toBase.rotate now
  · exact hgate

theorem Sound.tickOutside (h : Sound a sealed opened) (r : Readings) :
    Keeps (tickOutside prefixes r) a sealed opened := by
  rw [Keeps, Mesh.tickOutside]
  simp only [wp_bind, wp_read, wp_ite, wp_pure]
  exact ⟨fun _ => h.tick r, fun _ => h⟩

theorem Sound.depth (h : Sound a sealed opened) (n : ℕ) :
    Sound { a with transactionDepth := n } sealed opened :=
  { ids := h.ids, session := h.session, drawn := h.drawn, packets := h.packets,
    distinct := h.distinct, past := h.past
    current := fun e he => { h.current e he with } }

theorem Sound.enter (h : Sound a sealed opened) (r : Readings) (clock : Option ℤ) :
    Keeps (enter prefixes r clock) a sealed opened := by
  rw [Keeps, Mesh.enter]
  simp only [wp_bind, wp_modify]
  refine wp_mono (h.tick r) (fun _ b hb => ?_) fun _ b hb => hb
  refine wp_clockMs (fun now => ?_) fun _ => hb
  refine Sound.depth ?_ _
  split
  · exact hb.toBase.rotate now
  · exact hb

/-- Whoever is verified again was rotated before. -/
theorem Sound.unfreeze (h : Sound a sealed opened)
    (hx : ∀ e ∈ a.peers, e.x = e.localCert.body.x25519) :
    Sound { a with peers := a.peers.map fun e => { e with verified := true, frozen := false } }
      sealed opened :=
  h.mapPeers rfl ⟨rfl, rfl, rfl⟩ fun e he => ⟨rfl, rfl, fun hc => { hc with usable := fun _ => hx e he }⟩

theorem Sound.setVerified (h : Sound a sealed opened) (value : Bool) (gate : Gate)
    (clock : Option ℤ) (gate' : Gate) (clock' : Option ℤ) :
    Keeps (setVerified prefixes value gate clock gate' clock') a sealed opened := by
  have hv : Sound { a with verified := true } sealed opened :=
    { ids := h.ids, session := h.session, drawn := h.drawn, packets := h.packets,
      distinct := h.distinct, past := h.past
      current := fun e he => { h.current e he with } }
  rw [Keeps, Mesh.setVerified]
  simp only [wp_bind, wp_read, wp_check, wp_ite, wp_modify]
  refine ⟨fun _ => ⟨fun _ => h.freeze, fun _ => ⟨fun _ => ⟨fun _ => ?_, fun _ => h⟩, fun _ => h⟩⟩,
    fun _ => h⟩
  refine wp_clockMs (fun now => ?_) fun _ => hv
  refine ⟨fun _ => ?_, fun _ => wp_clockMs (fun now => ?_) fun _ => hv⟩
  · exact wp_mono (hv.renewSession gate' clock') (fun _ _ hs => hs.1.unfreeze hs.2) fun _ _ hs => hs
  · exact (hv.toBase.rotate now).unfreeze (rotate_exchange now)

/-- An enrolled peer has drawn its own identifier and keys. -/
theorem Sound.enroll (h : Sound a sealed opened) (label digest : Str) (r : Readings) :
    Keeps (enroll prefixes label digest r) a sealed opened := by
  unfold Keeps Mesh.enroll
  simp only [wp_bind, wp_check, wp_read, wp_modify, wp_pure]
  refine ⟨fun _ => ⟨fun _ => ?_, fun _ => h⟩, fun _ => h⟩
  refine wp_mono (h.tick r) (fun _ b hb => ⟨fun _ => ?_, fun _ => hb⟩) fun _ b hb => hb
  have hold : ∀ e ∈ b.peers, e.peerId ≠ b.drawn + 2 := fun e he heq => by
    have := hb.drawn e he
    omega
  have hids : (b.peers ++ [b.newPeer prefixes b.drawn label digest]).map Endpoint.peerId =
      b.peers.map Endpoint.peerId ++ [b.drawn + 2] := List.map_append
  refine { ids := ?_, session := ?_, drawn := ?_, packets := ?_, distinct := hb.distinct,
           past := ?_, current := ?_ }
  · rw [hids, List.nodup_append]
    refine ⟨hb.ids, List.nodup_singleton _, ?_⟩
    rintro i hi _ (_ | ⟨_, ⟨⟩⟩) rfl
    obtain ⟨e, he, heq⟩ := List.mem_map.mp hi
    exact hold e he heq
  · intro e he
    rcases List.mem_append.mp he with he | he
    · exact hb.session e he
    · rw [List.mem_singleton.mp he]
      rfl
  · intro e he
    rcases List.mem_append.mp he with he | he
    · exact (hb.drawn e he).trans (Nat.lt_add_of_pos_right (by decide))
    · rw [List.mem_singleton.mp he]
      change b.drawn + 2 < b.drawn + 4
      omega
  · intro s hs
    obtain ⟨hsound, hle, hmem⟩ := hb.packets s hs
    rw [hids]
    exact ⟨hsound, hle, List.mem_append_left _ hmem⟩
  · intro o ho
    obtain ⟨hle, hmem⟩ := hb.past o ho
    rw [hids]
    exact ⟨hle, List.mem_append_left _ hmem⟩
  · intro e he
    rcases List.mem_append.mp he with he | he
    · have hc := hb.current e he
      obtain ⟨n, hn, hx⟩ := hc.exchange
      exact { hc with
        exchange := ⟨n, hn.trans (Nat.lt_add_of_pos_right (by decide)), hx⟩
        keys := fun entry hentry => ⟨(hc.keys entry hentry).1, (hc.keys entry hentry).2.1,
          (hc.keys entry hentry).2.2.mono (Nat.le_add_right _ _)⟩ }
    · obtain rfl := List.mem_singleton.mp he
      refine ⟨rfl, ⟨rfl, rfl⟩, ⟨b.drawn + 1, ?_, rfl⟩, fun _ => rfl, fun _ => rfl, ?_, ?_, ?_⟩
      · change b.drawn + 1 < b.drawn + 4
        omega
      · exact fun _ hentry => absurd hentry List.not_mem_nil
      · intro s hs hsender
        obtain ⟨e, he, heq⟩ := List.mem_map.mp (hb.packets s hs).2.2
        exact absurd (heq.trans hsender) (hold e he)
      · intro o ho hreceiver
        obtain ⟨e, he, heq⟩ := List.mem_map.mp (hb.past o ho).2
        exact absurd (heq.trans hreceiver) (hold e he)

/-! ### Packets -/

theorem peer?_mem {id : ℕ} {e : Endpoint} (h : a.peer? id = some e) : e ∈ a.peers ∧ e.peerId = id :=
  ⟨List.mem_of_find?_eq_some h, by simpa using List.find?_some h⟩

theorem wp_member {id : ℕ} {Q : Endpoint → Authority → Prop} {E : Failure → Authority → Prop}
    (hQ : ∀ e ∈ a.peers, e.peerId = id → e.closed = false → Q e a) (hE : ∀ f, E f a) :
    wp (member id) Q E a := by
  unfold member
  simp only [wp_bind, wp_read]
  split
  · rename_i e he
    obtain ⟨hmem, hid⟩ := peer?_mem he
    rw [wp_ite]
    exact ⟨fun _ => hE _, fun hc => hQ e hmem hid (Bool.not_eq_true _ ▸ hc)⟩
  · exact hE _

/-- A cached key is secret, of its sender and of the current epoch. -/
theorem cached_secret {e : Endpoint} (hc : e.Current a sealed opened) (hf : e.frozen = false)
    {remote : Endpoint} (hr : remote.Current a sealed opened) {sender receiver : ℕ} {purpose : Str}
    {key : Key} {keys : List (KeyId × Key)}
    (hk : Cached e remote.localCert sender receiver purpose key keys) :
    (key.epoch = a.epoch ∧ key.sender = sender ∧ key.Secret a.drawn) ∧
      ∀ entry ∈ keys, entry.2.epoch = entry.1.2.2.2.2 ∧ entry.2.sender = entry.1.2.1 ∧
        entry.2.Secret a.drawn := by
  obtain ⟨m, hm, hx⟩ := hc.exchange
  obtain ⟨n, hn, hx'⟩ := hr.exchange
  rcases hk with ⟨hmem, rfl⟩ | ⟨-, rfl, rfl⟩
  · obtain ⟨hepoch, hsender, hsecret⟩ := hc.keys _ hmem
    exact ⟨⟨hepoch.trans hc.epoch, hsender, hsecret⟩, hc.keys⟩
  · have hnew : (derived e.x remote.localCert e.localCert sender receiver purpose).epoch = a.epoch ∧
        (derived e.x remote.localCert e.localCert sender receiver purpose).sender = sender ∧
        (derived e.x remote.localCert e.localCert sender receiver purpose).Secret a.drawn := by
      refine ⟨hc.cert.2, rfl, m, n, hm, hn, ?_⟩
      rw [derived, hc.usable hf, hx, hx']
    refine ⟨hnew, fun entry hentry => ?_⟩
    rcases mem_cacheKey hentry with hentry | rfl
    · exact hc.keys entry hentry
    · exact ⟨hnew.1.trans hc.epoch.symm, hnew.2.1, hnew.2.2⟩

theorem current_idle {e e' : Endpoint} (hc : e.Current a sealed opened) {remote : Endpoint}
    (hr : remote.Current a sealed opened) (hi : Idle e remote.localCert e') :
    (e'.peerId = e.peerId ∧ e'.session = e.session) ∧ e'.Current a sealed opened := by
  cases hi with
  | none => exact ⟨⟨rfl, rfl⟩, hc⟩
  | halt =>
    exact ⟨⟨rfl, rfl⟩, { hc with
      usable := fun hf => Bool.noConfusion hf
      keys := fun _ hentry => absurd hentry List.not_mem_nil }⟩
  | clock now => exact ⟨⟨rfl, rfl⟩, { hc with }⟩
  | key now hf hk => exact ⟨⟨rfl, rfl⟩, { hc with keys := (cached_secret hc hf hr hk).2 }⟩

/-- The authority in which `e'` took the place of a peer. -/
def Authority.put (a : Authority) (e e' : Endpoint) : Authority :=
  { a with peers := a.peers.map fun p => if p.peerId = e.peerId then e' else p }

theorem Sound.put (h : Sound a sealed opened) {e e' : Endpoint} (he : e ∈ a.peers)
    (hid : e'.peerId = e.peerId ∧ e'.session = e.session)
    (hc : e'.Current a sealed opened) : Sound (a.put e e') sealed opened := by
  refine h.mapPeers (f := fun p => if p.peerId = e.peerId then e' else p) rfl ⟨rfl, rfl, rfl⟩
    fun p hp => ?_
  by_cases hpe : p.peerId = e.peerId
  · obtain rfl := List.inj_on_of_nodup_map h.ids hp he hpe
    rw [if_pos rfl]
    exact ⟨hid.1, hid.2, fun _ => hc⟩
  · rw [if_neg hpe]
    exact ⟨rfl, rfl, fun hcp => hcp⟩

/-- One more sealed packet, of a peer that counts it. -/
theorem Sound.addSealed (h : Sound a sealed opened) {s : Sealed} (hs : s.Sound)
    (hepoch : s.epoch = a.epoch) (hsender : s.sender ∈ a.peers.map Endpoint.peerId)
    (hnew : s.used ∉ sealed.map Sealed.used)
    (hcount : ∀ e ∈ a.peers, s.sender = e.peerId → s.packet.header.seq ≤ e.sequence) :
    Sound a (sealed ++ [s]) opened := by
  refine { h with packets := ?_, distinct := ?_, current := fun e he =>
    { h.current e he with sent := ?_ } }
  · intro t ht
    rcases List.mem_append.mp ht with ht | ht
    · exact h.packets t ht
    · obtain rfl := List.mem_singleton.mp ht
      exact ⟨hs, hepoch.le, hsender⟩
  · rw [List.map_append, List.nodup_append]
    refine ⟨h.distinct, List.nodup_singleton _, ?_⟩
    rintro u hu _ (_ | ⟨_, ⟨⟩⟩) rfl
    exact hnew hu
  · intro t ht
    rcases List.mem_append.mp ht with ht | ht
    · exact (h.current e he).sent t ht
    · obtain rfl := List.mem_singleton.mp ht
      exact fun hid _ => hcount e he hid

/-- One more opened packet, of a peer that remembers it. -/
theorem Sound.addOpened (h : Sound a sealed opened) {o : Opened}
    (hepoch : o.packet.header.epoch ≤ a.epoch) (hreceiver : o.receiver ∈ a.peers.map Endpoint.peerId)
    (hseen : ∀ e ∈ a.peers, o.receiver = e.peerId →
      o.packet.header.seq ≤ e.received o.packet.header.sender) :
    Sound a sealed (opened ++ [o]) := by
  refine { h with past := ?_, current := fun e he => { h.current e he with seen := ?_ } }
  · intro t ht
    rcases List.mem_append.mp ht with ht | ht
    · exact h.past t ht
    · obtain rfl := List.mem_singleton.mp ht
      exact ⟨hepoch, hreceiver⟩
  · intro t ht
    rcases List.mem_append.mp ht with ht | ht
    · exact (h.current e he).seen t ht
    · obtain rfl := List.mem_singleton.mp ht
      exact fun hid _ => hseen e he hid

theorem put_ids {e e' : Endpoint} (hid : e'.peerId = e.peerId) :
    (a.put e e').peers.map Endpoint.peerId = a.peers.map Endpoint.peerId := by
  rw [Authority.put, List.map_map]
  refine List.map_congr_left fun p _ => ?_
  by_cases hp : p.peerId = e.peerId
  · simp [hp, hid]
  · simp [hp]

/-- The peer in a place is the one that was put there. -/
theorem put_peer {e e' p : Endpoint} (hp : p ∈ (a.put e e').peers) (hpe : p.peerId = e.peerId) : p = e' := by
  obtain ⟨q, -, rfl⟩ := List.mem_map.mp hp
  by_cases hq : q.peerId = e.peerId
  · exact if_pos hq
  · rw [if_neg hq] at hpe
    exact absurd hpe hq

/-- A sealed packet is new: its sender never used the sequence number in this epoch. -/
theorem Sound.seal (h : Sound a sealed opened) {e e' remote : Endpoint} (he : e ∈ a.peers)
    (hr : remote ∈ a.peers) {reading : Option ℤ} {payload : List UInt8} {purpose : Str} {p : Packet}
    (hs : SealedFrom e reading payload remote.localCert purpose p e') :
    Sound (a.put e e')
      (sealed ++ [⟨p, e.peerId, remote.peerId, purpose, payload, a.session, a.epoch⟩]) opened := by
  obtain ⟨now, key, keys, -, -, -, hk, he', hheader, hbox, hsign⟩ := hs.after
  have hc := h.current e he
  obtain ⟨⟨hkepoch, hksender, -⟩, hkeys⟩ := cached_secret hc hs.live.2.1 (h.current remote hr) hk
  have hid : e'.peerId = e.peerId ∧ e'.session = e.session := by
    rw [he']
    exact ⟨rfl, rfl⟩
  have hcurrent : e'.Current a sealed opened := by
    rw [he']
    exact { hc with
      keys := hkeys
      sent := fun s hs hid hep => (hc.sent s hs hid hep).trans (Nat.le_succ _) }
  have hput := h.put he hid hcurrent
  have hseq : p.header.seq = e.sequence + 1 := by
    rw [hheader, Endpoint.header]
  refine hput.addSealed ⟨?_, ?_, ⟨?_, ?_⟩, ?_, ?_, ?_, ⟨?_, ?_⟩, ?_, ?_⟩ rfl ?_ ?_ ?_
  · dsimp only
    rw [hbox]
  · dsimp only
    rw [hbox]
  · dsimp only
    rw [hheader, Endpoint.header]
    exact hc.cert.1
  · dsimp only
    rw [hbox]
    exact hksender.trans hc.cert.1
  · dsimp only
    rw [hheader, Endpoint.header]
    exact (h.current remote hr).cert.1
  · dsimp only
    rw [hheader, Endpoint.header]
  · dsimp only
    rw [hheader, Endpoint.header]
    exact h.session e he
  · dsimp only
    rw [hheader, Endpoint.header]
    exact hc.epoch
  · dsimp only
    rw [hbox]
    exact hkepoch
  · dsimp only
    rw [hbox, hheader, Endpoint.header]
  · dsimp only
    rw [hsign, hc.signing hs.live.1, hheader]
    rfl
  · rw [put_ids hid.1]
    exact List.mem_map_of_mem he
  · -- the sender counts its packets of this epoch
    intro hmem
    obtain ⟨t, ht, hused⟩ := List.mem_map.mp hmem
    obtain ⟨htkey, htnonce⟩ := Prod.mk.inj hused
    dsimp only at htkey htnonce
    rw [hbox] at htkey htnonce
    dsimp only at htkey htnonce
    have htsound := (h.packets t ht).1
    have hsender : t.sender = e.peerId := by
      rw [← htsound.sender.2, htkey, hksender, hc.cert.1]
    have hepoch : t.epoch = a.epoch := by rw [← htsound.epoch.2, htkey, hkepoch]
    have hle := hc.sent t ht hsender hepoch
    rw [← htsound.nonce, htnonce, hheader, Endpoint.header] at hle
    exact absurd hle (Nat.not_succ_le_self _)
  · intro q hq hq'
    rw [put_peer hq hq'.symm, he']
    exact hseq.le

/-- An opened packet is new to its receiver, and its box was sealed as it says. -/
theorem Sound.open (h : Sound a sealed opened) {e e' remote : Endpoint} (he : e ∈ a.peers)
    (hr : remote ∈ a.peers) {reading : Option ℤ} {envelope : Envelope} {payload : List UInt8}
    {purpose : Str} (ho : OpenedFrom e reading envelope remote.localCert purpose payload e') :
    ∃ p, envelope = .packet p ∧ p.ciphertext.key.Secret a.drawn ∧
      Sound (a.put e e') sealed (opened ++ [⟨e.peerId, p⟩]) ∧
      ∀ s ∈ sealed, s.packet.ciphertext = p.ciphertext →
        s.packet = p ∧ Authentic (a.put e e') opened e.peerId purpose payload s := by
  obtain ⟨p, now, key, keys, henvelope, -, -, -, hexpects, hcert, -, hseq, hsign, hk, hbox, he'⟩ :=
    ho.after
  obtain ⟨-, hsession, hsender, hreceiver, -, hpurpose, hepoch, -⟩ := hexpects
  have hc := h.current e he
  have hcr := h.current remote hr
  obtain ⟨⟨-, -, hsecret⟩, hkeys⟩ := cached_secret hc ho.live.2.1 hcr hk
  have hid : e'.peerId = e.peerId ∧ e'.session = e.session := by
    rw [he']
    exact ⟨rfl, rfl⟩
  -- what the peer saw before is below the new sequence number
  have hseen : ∀ o ∈ opened, o.receiver = e.peerId → o.packet.header.epoch = a.epoch →
      o.packet.header.seq ≤ e'.received o.packet.header.sender := by
    intro o ho hor hoe
    have hle := hc.seen o ho hor hoe
    rw [he']
    dsimp only
    by_cases hs : o.packet.header.sender = p.header.sender
    · rw [hs, Function.update_self]
      rw [hs] at hle
      exact hle.trans hseq.le
    · rw [Function.update_of_ne hs]
      exact hle
  have hcurrent : e'.Current a sealed opened := by
    rw [he'] at hseen ⊢
    exact { hc with keys := hkeys, seen := hseen }
  have hput := h.put he hid hcurrent
  refine ⟨p, henvelope, by rw [hbox]; exact hsecret, ?_, fun s hs hsame => ?_⟩
  · refine hput.addOpened (hepoch.le.trans hc.epoch.le) ?_ fun q hq hq' => ?_
    · rw [put_ids hid.1]
      exact List.mem_map_of_mem he
    · rw [put_peer hq hq'.symm, he']
      dsimp only
      rw [Function.update_self]
  · obtain ⟨hsound, -, hmem⟩ := h.packets s hs
    have hheader : s.packet.header = p.header := by rw [← hsound.header, hsame, hbox]
    have hpacket : s.packet = p := by
      have hsignature : s.packet.signature = p.signature := by
        rw [hsound.signature, hheader, hsame, hsign, hcert]
      obtain ⟨_, _, _⟩ := p
      obtain ⟨⟨_, _, _⟩, _, _, _, _, _, _⟩ := s
      simp_all
    refine ⟨hpacket, ⟨?_, ?_, ?_, ?_, ?_, ?_, ?_⟩⟩
    · rw [← hsound.payload, hsame, hbox]
    · rw [put_ids hid.1]
      exact hmem
    · rw [← hsound.receiver, hheader, hreceiver, hc.cert.1]
    · rw [← hsound.purpose, hheader, hpurpose]
    · rw [← hsound.session, hheader, hsession]
      exact h.session e he
    · rw [← hsound.epoch.1, hheader, hepoch]
      exact hc.epoch
    · rintro o ho ⟨hor, hop⟩
      rw [hpacket] at hop
      have hle := hc.seen o ho hor (by rw [hop, hepoch, hc.epoch])
      rw [hop] at hle
      exact absurd hseq (Nat.not_lt.mpr hle)

theorem Sound.idle (h : Sound a sealed opened) {e e' remote : Endpoint} (he : e ∈ a.peers)
    (hr : remote ∈ a.peers) (hi : Idle e remote.localCert e') : Sound (a.put e e') sealed opened := by
  obtain ⟨hid, hc⟩ := current_idle (h.current e he) (h.current remote hr) hi
  exact h.put he hid hc

theorem Sound.peerSeal (h : Sound a sealed opened) (sender receiver : ℕ) (payload : List UInt8)
    (purpose : Str) (r : Readings) (gate : Gate) (clock : Option ℤ) :
    wp (peerSeal prefixes sender receiver payload purpose r gate clock)
      (fun p a' => Sound a'
        (sealed ++ [⟨p, sender, receiver, purpose, payload, a'.session, a'.epoch⟩]) opened)
      (fun _ a' => Sound a' sealed opened) a := by
  unfold Mesh.peerSeal
  simp only [wp_bind]
  refine wp_mono (h.tickOutside r) (fun _ b hb => ?_) fun _ _ hb => hb
  refine wp_member (fun e he hid _ => wp_member (fun remote hr hidr _ => ?_) fun _ => hb) fun _ => hb
  rw [onPeer, wp_zoom]
  refine wp_mono (wp_seal e gate clock payload remote.localCert purpose) (fun p e' hs => ?_)
    fun _ e' hi => hb.idle he hr hi
  have hsealed := hb.seal he hr hs
  rw [hid, hidr] at hsealed
  exact hsealed

theorem Sound.peerOpen (h : Sound a sealed opened) (receiver : ℕ) (envelope : Envelope)
    (purpose : Str) (expected : Option ℕ) (r : Readings) (gate : Gate) (clock : Option ℤ) :
    wp (peerOpen prefixes receiver envelope purpose expected r gate clock)
      (fun payload a' => ∃ p, envelope = .packet p ∧ p.ciphertext.key.Secret a'.drawn ∧
        Sound a' sealed (opened ++ [⟨receiver, p⟩]) ∧
        ∀ s ∈ sealed, s.packet.ciphertext = p.ciphertext →
          s.packet = p ∧ Authentic a' opened receiver purpose payload s)
      (fun _ a' => Sound a' sealed opened) a := by
  unfold Mesh.peerOpen
  simp only [wp_bind]
  refine wp_mono (h.tickOutside r) (fun _ b hb => ?_) fun _ _ hb => hb
  refine wp_member (fun e he hid _ => ?_) fun _ => hb
  rw [wp_read]
  split
  · exact hb
  · rename_i remote hremote
    obtain ⟨id, -, hremote⟩ := Option.bind_eq_some_iff.mp hremote
    obtain ⟨hr, -⟩ := peer?_mem hremote
    simp only [wp_bind, wp_check]
    refine ⟨fun _ => ?_, fun _ => hb⟩
    rw [onPeer, wp_zoom]
    refine wp_mono (wp_open e gate clock envelope remote.localCert purpose) (fun payload e' ho => ?_)
      fun _ e' hi => hb.idle he hr hi
    have hopened := hb.open he hr ho
    rw [hid] at hopened
    exact hopened

theorem Sound.closePeer (h : Sound a sealed opened) (id : ℕ) :
    Keeps (closePeer id) a sealed opened := by
  unfold Keeps Mesh.closePeer
  simp only [wp_bind, wp_read]
  split
  · exact h
  · rename_i e he
    rw [onPeer, wp_zoom]
    obtain ⟨he, -⟩ := peer?_mem he
    exact h.put he ⟨rfl, rfl⟩ (current_close (h.current e he))

end Preserved

/-! ### Runs -/

section Runs

variable {prefixes : Prefixes}

def World.Sound (w : World) : Prop := Mesh.Sound w.authority w.sealed w.opened

theorem World.Sound.exec {w : World} (h : w.Sound) (call : Call) : (w.exec prefixes call).Sound := by
  cases call with
  | enroll label digest r => exact wp_state (h.enroll label digest r)
  | peerSeal sender receiver payload purpose r gate clock =>
    have hseal : wp (peerSeal prefixes sender receiver payload purpose r gate clock) _ _ _ :=
      h.peerSeal sender receiver payload purpose r gate clock
    rw [World.exec]
    rw [wp] at hseal
    split at hseal
    · rename_i hm
      rw [hm]
      exact hseal
    · rename_i hm
      rw [hm]
      exact hseal
  | peerOpen receiver envelope purpose expected r gate clock =>
    have hopen : wp (peerOpen prefixes receiver envelope purpose expected r gate clock) _ _ _ :=
      h.peerOpen receiver envelope purpose expected r gate clock
    rw [wp] at hopen
    split at hopen
    · rename_i hm
      obtain ⟨p, rfl, -, hsound, -⟩ := hopen
      simp only [World.exec, hm]
      exact hsound
    · rename_i hm
      simp only [World.exec, hm]
      exact hopen
  | enter r clock => exact wp_state (h.enter r clock)
  | leave => exact h.depth _
  | tick r => exact wp_state (h.tick r)
  | renewSession gate clock =>
    exact wp_state (wp_mono (h.renewSession gate clock) (fun _ _ hs => hs.1) fun _ _ hs => hs)
  | setVerified value gate clock gate' clock' =>
    exact wp_state (h.setVerified value gate clock gate' clock')
  | freeze => exact h.freeze
  | close => exact h.close
  | closePeer id => exact wp_state (h.closePeer id)

theorem World.Sound.start (verified : Bool) (rotationMs : ℕ) (now : ℤ) :
    (World.start verified rotationMs now).Sound := by
  refine { ids := .nil, session := ?_, drawn := ?_, packets := ?_, distinct := .nil, past := ?_,
           current := ?_ }
  all_goals exact fun _ h => absurd h List.not_mem_nil

theorem World.Sound.run {verified : Bool} {rotationMs : ℕ} {now : ℤ} {calls : List Call} {w : World}
    (h : Run (Guarded (Network prefixes) (World.Step prefixes)) (World.start verified rotationMs now)
      calls w) : w.Sound := by
  refine h.invariant (fun u call v hI hstep => ?_) (World.Sound.start verified rotationMs now)
  obtain ⟨-, rfl⟩ := hstep
  exact hI.exec call

/-- CORRECT: along every run of calls, with any readings of the clock and the gate and any frames on
    the network, no two packets were sealed under one key and nonce, and a payload that is opened is
    the payload of a packet that an enrolled peer sealed for the receiver, under the purpose, in the
    current epoch and session, and that the receiver did not open before. -/
theorem World.authentic {verified : Bool} {rotationMs : ℕ} {now : ℤ} {calls : List Call} {w : World}
    (h : Run (Guarded (Network prefixes) (World.Step prefixes)) (World.start verified rotationMs now)
      calls w) :
    (w.sealed.map Sealed.used).Nodup ∧
      ∀ receiver envelope purpose expected r gate clock payload a,
        Network prefixes w (.peerOpen receiver envelope purpose expected r gate clock) →
        peerOpen prefixes receiver envelope purpose expected r gate clock w.authority =
          (.ok payload, a) →
        ∃ s ∈ w.sealed, envelope = .packet s.packet ∧
          Authentic a w.opened receiver purpose payload s := by
  have hsound := World.Sound.run h
  refine ⟨hsound.distinct, ?_⟩
  intro receiver envelope purpose expected r gate clock payload a hnetwork hopen
  obtain ⟨p, rfl, hsecret, -, hauthentic⟩ := wp_ok
    (hsound.peerOpen receiver envelope purpose expected r gate clock) hopen
  have hdrawn : (w.exec prefixes
      (.peerOpen receiver (.packet p) purpose expected r gate clock)).authority = a := by
    simp only [World.exec, hopen]
  obtain ⟨s, hs, hsame⟩ := hnetwork (by rw [hdrawn]; exact hsecret)
  obtain ⟨hpacket, hs'⟩ := hauthentic s hs hsame
  exact ⟨s, hs, by rw [hpacket], hs'⟩

/-- Readings at time zero, with the gate open. -/
def quiet : Readings := ⟨some 0, .approved, .approved, some 0⟩

/-- Two peers are enrolled, and the first seals two bytes for the second. -/
def greeting : List Call :=
  [.enroll "parent".toList [] quiet, .enroll "worker".toList [] quiet,
    .peerSeal 5 9 [104, 105] "telemetry.event".toList quiet .approved (some 0)]

def greeted : World :=
  greeting.foldl (World.exec fun _ => 0) (World.start true 1000 0)

theorem World.authentic_greeting : ∃ s a, s ∈ greeted.sealed ∧
    Authentic a greeted.opened 9 "telemetry.event".toList [104, 105] s := by
  have hrun : Run (Guarded (Network fun _ => 0) (World.Step fun _ => 0)) (World.start true 1000 0)
      greeting greeted := by
    refine Run.of_foldl fun w call hcall => ?_
    rcases hcall with _ | ⟨_, _ | ⟨_, _ | ⟨_, ⟨⟩⟩⟩⟩
    all_goals exact trivial
  have hopen : ∃ p ∈ greeted.sealed.map Sealed.packet,
      (peerOpen (fun _ => 0) 9 (.packet p) "telemetry.event".toList (some 5) quiet .approved (some 0)
        greeted.authority).1 = .ok [104, 105] := by decide +kernel
  obtain ⟨p, hp, hopen⟩ := hopen
  obtain ⟨s, hs, rfl⟩ := List.mem_map.mp hp
  obtain ⟨t, ht, -, hauthentic⟩ := (World.authentic hrun).2 9 (.packet s.packet)
    "telemetry.event".toList (some 5) quiet .approved (some 0) [104, 105] _
    (fun _ => ⟨s, hs, rfl⟩) (Prod.ext hopen rfl)
  exact ⟨t, _, ht, hauthentic⟩

end Runs

end Angerona.Mesh
