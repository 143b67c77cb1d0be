import Angerona.Mesh.Endpoint

/-!
    What sealing and opening do to an endpoint.

    One lemma for each operation says what it returns and what it leaves, and what a refusal may
    have left. -/

namespace Angerona.Mesh
open Text Effect

/-- The key of an identity was cached, or it is derived and cached. -/
def Cached (e : Endpoint) (remote : Cert) (sender receiver : ℕ) (purpose : Str) (key : Key)
    (keys : List (KeyId × Key)) : Prop :=
  let id : KeyId := (remote.body.peer, sender, receiver, purpose, e.epoch)
  (id, key) ∈ e.keys ∧ keys = e.keys ∨
    e.keys.lookup id = none ∧ key = derived e.x remote e.localCert sender receiver purpose ∧
      keys = cacheKey id key e.keys

/-- What a refused call may have left: nothing, a halt, a reading of the clock, or a cached key. -/
inductive Idle (e : Endpoint) (remote : Cert) : Endpoint → Prop where
  | none : Idle e remote e
  | halt : Idle e remote e.halt
  | clock (now : ℤ) : Idle e remote { e with lastNow := now }
  | key {sender receiver : ℕ} {purpose : Str} {key : Key} {keys : List (KeyId × Key)} (now : ℤ)
    (hf : e.frozen = false) (hk : Cached e remote sender receiver purpose key keys) :
    Idle e remote { e with lastNow := now, keys }

variable {e : Endpoint}

theorem mem_cacheKey {id : KeyId} {key : Key} {keys : List (KeyId × Key)} {entry : KeyId × Key}
    (h : entry ∈ cacheKey id key keys) : entry ∈ keys ∨ entry = (id, key) := by
  rw [cacheKey] at h
  split at h
  · simpa using List.mem_of_mem_tail h
  · simpa using h

/-- A call that starts with `require` and `now` runs on from the reading, or is refused. -/
theorem wp_started {α : Type} {gate : Gate} {reading : Option ℤ} {remote : Cert}
    {m : ℤ → Effect Failure Endpoint α} {Q : α → Endpoint → Prop}
    {E : Failure → Endpoint → Prop} (hE : ∀ f e', Idle e remote e' → E f e')
    (h : ∀ now, e.closed = false → e.frozen = false → e.verified = true → gate = .approved →
      reading = some now → e.lastNow ≤ now → wp (m now) Q E { e with lastNow := now }) :
    wp (do Endpoint.require gate; let now ← Endpoint.now reading; m now) Q E e := by
  simp only [Endpoint.require, wp_bind, wp_read, wp_check, wp_ite, wp_pure, wp_modify, wp_raise]
  refine ⟨fun hopen => ⟨fun hgate => ?_, fun _ => hE _ _ .halt⟩, fun _ => hE _ _ .none⟩
  rw [not_or, not_or, Bool.not_eq_true, Bool.not_eq_true, not_not] at hopen
  cases reading with
  | none => exact hE _ _ .none
  | some now =>
    simp only [Endpoint.now, wp_bind, wp_read, wp_ite, wp_modify, wp_raise, wp_pure]
    refine ⟨fun _ => hE _ _ .halt, fun hle => ?_⟩
    exact h now hopen.1 hopen.2.1 hopen.2.2 hgate rfl (Int.not_lt.mp hle)

theorem lookup_mem {κ ν : Type} [BEq κ] [LawfulBEq κ] {k : κ} {v : ν} : ∀ {l : List (κ × ν)},
    l.lookup k = some v → (k, v) ∈ l
  | [], h => by simp at h
  | (a, b) :: l, h => by
    rw [List.lookup_cons] at h
    split at h
    · rename_i heq
      rw [beq_iff_eq.mp heq, Option.some.inj h]
      exact List.mem_cons_self
    · exact List.mem_cons_of_mem _ (lookup_mem h)

theorem wp_key {remote : Cert} {sender receiver : ℕ} {purpose : Str} {Q : Key → Endpoint → Prop}
    {E : Failure → Endpoint → Prop} (h : ∀ key keys, Cached e remote sender receiver purpose key keys →
      Q key { e with keys }) :
    wp (Endpoint.key remote sender receiver purpose) Q E e := by
  rw [Endpoint.key, wp_bind, wp_read]
  dsimp only
  split
  · rename_i key hkey
    exact h key e.keys (.inl ⟨lookup_mem hkey, rfl⟩)
  · rename_i hnone
    exact h _ _ (.inr ⟨hnone, rfl, rfl⟩)

/-- What `_seal` returns from an endpoint. -/
structure SealedFrom (e : Endpoint) (reading : Option ℤ) (payload : List UInt8) (remote : Cert)
    (purpose : Str) (p : Packet) (e' : Endpoint) : Prop where
  live : e.closed = false ∧ e.frozen = false ∧ e.verified = true
  named : isPurpose purpose = true
  size : payload.length ≤ e.payloadLimit
  room : e.sequence < 2 ^ 63 - 1
  after : ∃ now key keys, reading = some now ∧ e.lastNow ≤ now ∧ now < e.expires ∧
    Cached e remote e.localCert.body.peer remote.body.peer purpose key keys ∧
    e' = { e with lastNow := now, sequence := e.sequence + 1, keys } ∧
    p.header = { e with sequence := e.sequence + 1 }.header now remote purpose ∧
    p.ciphertext = ⟨key, p.header.nonce, p.header, payload⟩ ∧
    p.signature = ⟨e.ed, (p.header, p.ciphertext)⟩

theorem wp_seal (e : Endpoint) (gate : Gate) (reading : Option ℤ) (payload : List UInt8)
    (remote : Cert) (purpose : Str) :
    wp (Endpoint.seal gate reading payload remote purpose)
      (SealedFrom e reading payload remote purpose) (fun _ => Idle e remote) e := by
  refine wp_started (fun _ _ h => h) fun now hclosed hfrozen hverified _ hreading hle => ?_
  simp only [wp_bind, wp_read, wp_check, wp_modify]
  refine ⟨fun hlive => ⟨fun hsize => ⟨fun hpurpose => ⟨fun hroom => ?_, ?_⟩, ?_⟩, ?_⟩, ?_⟩
  · refine wp_key fun key keys hkey => ?_
    exact ⟨⟨hclosed, hfrozen, hverified⟩, hpurpose, hsize, hroom, now, key, keys, hreading, hle,
      hlive, hkey, rfl, rfl, rfl, rfl⟩
  all_goals exact fun _ => .clock now

/-- What `_open` returns from an endpoint. -/
structure OpenedFrom (e : Endpoint) (reading : Option ℤ) (envelope : Envelope) (remote : Cert)
    (purpose : Str) (payload : List UInt8) (e' : Endpoint) : Prop where
  live : e.closed = false ∧ e.frozen = false ∧ e.verified = true
  after : ∃ p now key keys, envelope = .packet p ∧ reading = some now ∧ e.lastNow ≤ now ∧
    now < e.expires ∧ e.expects now p.header remote purpose ∧ p.header.certificate = remote ∧
    p.header.nonce = (remote.body.noncePrefix, p.header.seq) ∧
    e.received p.header.sender < p.header.seq ∧
    p.signature = ⟨remote.body.ed25519, (p.header, p.ciphertext)⟩ ∧
    Cached e remote p.header.sender p.header.receiver purpose key keys ∧
    p.ciphertext = ⟨key, p.header.nonce, p.header, payload⟩ ∧
    e' = { e with
      lastNow := now, keys
      received := Function.update e.received p.header.sender p.header.seq }

theorem certificate_body {cert : Cert} {ca : Secret} {boot session : ℕ} {now : ℤ} {kind : CertKind}
    {expected : Option CertBody} {body : CertBody}
    (h : certificate cert ca boot session now kind expected = .ok body) : body = cert.body := by
  unfold certificate at h
  dsimp only at h
  split at h
  · cases h
  split at h
  · cases h
  split at h
  · exact (Except.ok.inj h).symm
  · split at h
    · cases h
    · exact (Except.ok.inj h).symm

theorem decrypt_some {b : Box} {key : Key} {nonce : Nonce} {header : Header} {payload : List UInt8}
    (h : b.decrypt key nonce header = some payload) : b = ⟨key, nonce, header, payload⟩ := by
  rw [Box.decrypt] at h
  obtain ⟨⟨hkey, hnonce, hheader⟩, hpayload⟩ := Option.ite_none_right_eq_some.mp h
  obtain ⟨_, _, _, _⟩ := b
  simp_all

theorem wp_open (e : Endpoint) (gate : Gate) (reading : Option ℤ) (envelope : Envelope)
    (remote : Cert) (purpose : Str) :
    wp (Endpoint.open gate reading envelope remote purpose)
      (OpenedFrom e reading envelope remote purpose) (fun _ => Idle e remote) e := by
  refine wp_started (fun _ _ h => h) fun now hclosed hfrozen hverified _ hreading hle => ?_
  simp only [wp_bind, wp_read, wp_check]
  refine ⟨fun hlive => ?_, fun _ => .clock now⟩
  cases envelope with
  | malformed sender failure => exact .clock now
  | packet p =>
    simp only [Endpoint.admitPacket, wp_bind, wp_read, wp_check, wp_lift]
    refine ⟨fun hexpects => ⟨fun cert hcert => ?_, fun _ _ => .clock now⟩, fun _ => .clock now⟩
    obtain rfl := certificate_body hcert
    refine ⟨fun hsame => ⟨fun hnonce => ⟨fun hseq => ⟨fun hsize => ⟨fun hsign => ?_, ?_⟩, ?_⟩, ?_⟩,
      ?_⟩, ?_⟩
    · refine wp_key fun key keys hkey => ?_
      cases hbox : p.ciphertext.decrypt key p.header.nonce p.header with
      | none => exact .key now hfrozen hkey
      | some payload =>
        rw [hsame.1] at hnonce hsign
        exact ⟨⟨hclosed, hfrozen, hverified⟩, p, now, key, keys, rfl, hreading, hle, hlive, hexpects,
          hsame.1, hnonce, hseq, of_decide_eq_true hsign, hkey, decrypt_some hbox, rfl⟩
    all_goals exact fun _ => .clock now

end Angerona.Mesh
