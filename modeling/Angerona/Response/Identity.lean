import Angerona.Lib.Matching
import Angerona.Lib.StrictJson

/-!
    Operator identity (`core/approval_identity.py`): credentials that the backend was given, signed
    proofs of one purpose, and the independent principals among those who proved it. -/

namespace Angerona.Response
open Text PyJson Raising

/-! ### Numbers -/

/-- An `int` or a `float`. -/
inductive Stamp where
  | int (n : ℤ)
  | float (f : PyFloat)
  deriving DecidableEq

namespace Stamp

def num : Stamp → PyJson.Num
  | .int n => .int n
  | .float f => f.num

def value : Stamp → Value
  | .int n => .int n
  | .float f => .float f

def lt (a b : Stamp) : Bool := a.num.lt b.num

/-- `a <= b` of numbers that are not `NaN`. -/
def le (a b : Stamp) : Bool := !b.lt a

/-- `math.isfinite(a)` returns true; it raises on an integer that no float is near to. -/
def isFinite : Stamp → Bool
  | .int n => (Double.ofInt n).isSome
  | .float f => f.isFinite

def truthy : Stamp → Bool
  | .int n => n ≠ 0
  | .float (.finite d) => d.val ≠ 0
  | .float _ => true

/-- A sum of positive numbers; it may leave the finite range. -/
def sum (a b : Double) : Stamp := .float ((a.add b).elim (.inf false) .finite)

/-- `a + seconds` for a float number of seconds. -/
def addFloat (seconds : Double) : Stamp → Stamp
  | .int n => (Double.ofInt n).elim (.float .nan) fun a => sum a seconds
  | .float (.finite a) => sum a seconds
  | .float f => .float f

/-- `a + seconds` for an integer number of seconds. -/
def addInt (seconds : ℕ) (h : seconds ≤ 2 ^ 53) : Stamp → Stamp
  | .int n => .int (n + seconds)
  | .float (.finite a) => sum a (Double.ofNat seconds h)
  | .float f => .float f

end Stamp

/-- A clock reading. -/
def reading (now : Double) : Stamp := .float (.finite now)

/-! ### Credentials and proofs -/

/-- `_ID` of the identity module. -/
def isIdentity : Str → Bool
  | [] => false
  | c :: cs => c.isAlphanum ∧ cs.length ≤ 159 ∧
      cs.all fun c => c.isAlphanum ∨ c ∈ "_.:@/-".toList

structure PrincipalCredential where
  credentialId : Str
  issuer : Str
  subject : Str
  publicKey : List UInt8
  enabled : Bool
  expiresAt : Stamp
  deriving DecidableEq

structure SignedPrincipalProof where
  credentialId : Str
  issuer : Str
  subject : Str
  keyFingerprint : Str
  purposeDigest : Str
  issuedAt : Stamp
  expiresAt : Stamp
  nonce : Str
  signature : Str
  deriving DecidableEq

structure VerifiedPrincipal where
  principalId : Str
  issuer : Str
  subject : Str
  credentialId : Str
  keyFingerprint : Str
  expiresAt : Stamp
  deriving DecidableEq

/-- Digests and signatures, on the canonical texts they are applied to. -/
structure Machine where
  /-- `float.__repr__`. -/
  repr : Double → Str
  /-- `hashlib.sha256(text).hexdigest()`. -/
  sha256 : Json → Str
  /-- `hashlib.sha256(public_key).hexdigest()`. -/
  fingerprint : List UInt8 → Str
  /-- `hmac.new(key, text, sha256).hexdigest()` under the audit key. -/
  hmac : Json → Str
  hmac_hex : ∀ text, isHex 64 (hmac text) = true
  /-- The same with the prefix of the state file. -/
  stateHmac : Json → Str
  /-- The text is the encoding of a signature of the approval text under the public key. -/
  ed25519 : List UInt8 → Json → Str → Bool

/-- `_canonical`. -/
def Machine.canonical (m : Machine) (v : Value) : Except JsonError Json := v.canonical m.repr

/-- `principal_id(issuer, subject)` of valid names. -/
def Machine.principalId (m : Machine) (issuer subject : Str) : Str :=
  "principal:".toList ++ m.sha256 (.arr [.str issuer, .str subject])

/-- `MAX_PROOF_TTL`. -/
def maxProofTtl : Double := Double.ofNat 1800 (by decide)

def SignedPrincipalProof.signedFields (p : SignedPrincipalProof) : List (Str × Value) :=
  [("credential_id".toList, .str p.credentialId), ("issuer".toList, .str p.issuer),
    ("subject".toList, .str p.subject), ("key_fingerprint".toList, .str p.keyFingerprint),
    ("purpose_digest".toList, .str p.purposeDigest), ("issued_at".toList, p.issuedAt.value),
    ("expires_at".toList, p.expiresAt.value), ("nonce".toList, .str p.nonce)]

/-- The checks of `signing_bytes()`. -/
def SignedPrincipalProof.wellFormed (p : SignedPrincipalProof) : Bool :=
  isIdentity p.credentialId ∧ isIdentity p.issuer ∧ isIdentity p.subject ∧
    isHex 64 p.keyFingerprint ∧ isHex 64 p.purposeDigest ∧ isHex 32 p.nonce ∧
    p.issuedAt.isFinite ∧ p.expiresAt.isFinite ∧ Stamp.le (.int 0) p.issuedAt ∧
    p.issuedAt.lt p.expiresAt ∧ p.expiresAt.le (p.issuedAt.addFloat maxProofTtl)

/-- `signing_bytes()`, less its domain; `none` when it raises. -/
def Machine.signingBytes (m : Machine) (p : SignedPrincipalProof) : Option Json :=
  if p.wellFormed then (m.canonical (record p.signedFields)).toOption else none

/-! ### Verifying a proof -/

structure ApprovalIdentityVerifier where
  credentials : List PrincipalCredential
  nodup : (credentials.map (·.credentialId)).Nodup
  /-- `_revoked`: fingerprints. -/
  revoked : List Str

namespace ApprovalIdentityVerifier

/-- `credentials.get(credential_id)`. -/
def get (v : ApprovalIdentityVerifier) (credentialId : Str) : Option PrincipalCredential :=
  v.credentials.find? fun record => record.credentialId = credentialId

end ApprovalIdentityVerifier

namespace PrincipalCredential

/-- `principal_id` of a credential. -/
def principalId (m : Machine) (record : PrincipalCredential) : Str :=
  m.principalId record.issuer record.subject

/-- `key_fingerprint`. -/
def keyFingerprint (m : Machine) (record : PrincipalCredential) : Str :=
  m.fingerprint record.publicKey

/-- The credential is enabled, its key is not revoked and it has not expired. -/
def active (m : Machine) (revoked : List Str) (now : Stamp) (record : PrincipalCredential) : Bool :=
  record.enabled ∧ record.keyFingerprint m ∉ revoked ∧
    ¬(record.expiresAt.truthy ∧ record.expiresAt.le now)

end PrincipalCredential

/-- `status()["state"] == "configured"`. -/
def Machine.configured (m : Machine) (v : ApprovalIdentityVerifier) (stamp : Stamp) : Bool :=
  (stamp.isFinite ∧ Stamp.le (.int 0) stamp) ∧ v.credentials.any (·.active m v.revoked stamp)

/-- `resolve_principal`; `none` when it raises `PermissionError`. -/
def Machine.resolvePrincipal (m : Machine) (v : ApprovalIdentityVerifier) (identity : Str) :
    Option Str :=
  match v.get identity with
  | some record => some (record.principalId m)
  | none => if v.credentials.any (·.principalId m = identity) then some identity else none

/-- What `verify` accepts of a proof and the credential that it names. -/
structure Proven (m : Machine) (v : ApprovalIdentityVerifier) (p : SignedPrincipalProof)
    (purpose : Str) (now : Double) (record : PrincipalCredential) : Prop where
  found : v.get p.credentialId = some record
  active : record.active m v.revoked (reading now) = true
  purpose : p.purposeDigest = purpose
  issued : p.issuedAt.le (reading now) = true
  unexpired : (reading now).lt p.expiresAt = true
  identity : p.issuer = record.issuer ∧ p.subject = record.subject ∧
    p.keyFingerprint = record.keyFingerprint m
  signed : ∃ body, m.signingBytes p = some body ∧ p.signature.length = 86 ∧
    m.ed25519 record.publicKey body p.signature = true

/-- `VerifiedPrincipal(record, min(proof.expires_at, record.expires_at or proof.expires_at))`. -/
def Machine.principal (m : Machine) (record : PrincipalCredential) (p : SignedPrincipalProof) :
    VerifiedPrincipal :=
  { principalId := record.principalId m, issuer := record.issuer, subject := record.subject
    credentialId := record.credentialId, keyFingerprint := record.keyFingerprint m
    expiresAt := if record.expiresAt.truthy ∧ record.expiresAt.lt p.expiresAt then record.expiresAt
      else p.expiresAt }

/-- `verify`; `none` when it raises `PermissionError`. -/
def Machine.verify (m : Machine) (v : ApprovalIdentityVerifier) (p : SignedPrincipalProof)
    (purpose : Str) (now : Double) : Option VerifiedPrincipal :=
  match v.get p.credentialId with
  | none => none
  | some record =>
    if !record.active m v.revoked (reading now) then none
    else
      match m.signingBytes p with
      | none => none
      | some body =>
        if p.purposeDigest ≠ purpose ∨ ¬(p.issuedAt.le (reading now) ∧ (reading now).lt p.expiresAt) ∨
            (p.issuer, p.subject, p.keyFingerprint) ≠
              (record.issuer, record.subject, record.keyFingerprint m) then none
        else if p.signature.length = 86 ∧ m.ed25519 record.publicKey body p.signature then
          some (m.principal record p)
        else none

theorem verify_some {m : Machine} {v : ApprovalIdentityVerifier} {p : SignedPrincipalProof}
    {purpose : Str} {now : Double} {principal : VerifiedPrincipal}
    (h : m.verify v p purpose now = some principal) :
    ∃ record, Proven m v p purpose now record ∧ principal = m.principal record p := by
  rw [Machine.verify] at h
  split at h
  · cases h
  · rename_i record hrecord
    split at h
    · cases h
    · rename_i hactive
      split at h
      · cases h
      · rename_i body hbody
        split at h
        · cases h
        · rename_i hbound
          split at h
          · rename_i hsigned
            rw [not_or, not_or, not_not, not_not, not_not] at hbound
            obtain ⟨hpurpose, ⟨hissued, hunexpired⟩, hidentity⟩ := hbound
            obtain ⟨hissuer, hrest⟩ := Prod.mk.inj hidentity
            obtain ⟨hsubject, hkey⟩ := Prod.mk.inj hrest
            refine ⟨record, ⟨hrecord, by simpa using hactive, hpurpose, hissued, hunexpired,
              ⟨hissuer, hsubject, hkey⟩, body, hbody, hsigned.1, hsigned.2⟩, ?_⟩
            exact (Option.some.inj h).symm
          · cases h

/-! ### Independent principals -/

/-- `by_subject`. -/
def bySubject (records : List VerifiedPrincipal) : Dict Str (Dict Str VerifiedPrincipal) :=
  records.foldl (fun d p => d.set p.principalId
    (((d.get? p.principalId).getD Dict.empty).set p.keyFingerprint p)) Dict.empty

/-- `sorted(by_subject[subject].items())`. -/
def options (records : List VerifiedPrincipal) (subject : Str) : List (Str × VerifiedPrincipal) :=
  (((bySubject records).get? subject).getD Dict.empty).items.insertionSort textLe

/-- `sorted(by_subject)`. -/
def subjects (records : List VerifiedPrincipal) : List Str :=
  ((bySubject records).items.insertionSort textLe).map Prod.fst

/-- The order of `sorted(…, key=lambda item: item.principal_id)`. -/
def principalLe (a b : VerifiedPrincipal) : Prop := ¬b.principalId < a.principalId

instance : DecidableRel principalLe := fun a b =>
  inferInstanceAs (Decidable ¬b.principalId < a.principalId)

/-- `independent_principals` of at most 128 principals; a path is no longer than their number. -/
def independentPrincipals (records : List VerifiedPrincipal) : List VerifiedPrincipal :=
  (Matching.assignAll (options records) (·.principalId) (records.length + 1)
    (subjects records)).values.insertionSort principalLe

theorem bySubject_spec {records : List VerifiedPrincipal} {subject key : Str}
    {d : Dict Str VerifiedPrincipal} {p : VerifiedPrincipal}
    (hd : (bySubject records).get? subject = some d) (hp : d.get? key = some p) :
    p.principalId = subject ∧ p.keyFingerprint = key ∧ p ∈ records := by
  induction records using List.reverseRecOn generalizing subject key d p with
  | nil => simp [bySubject] at hd
  | append_singleton records q ih =>
    rw [bySubject, List.foldl_append, List.foldl_cons, List.foldl_nil, ← bySubject,
      Dict.get?_set] at hd
    split at hd
    · rename_i hsubject
      obtain rfl := Option.some.inj hd
      rw [Dict.get?_set] at hp
      split at hp
      · rename_i hkey
        obtain rfl := Option.some.inj hp
        exact ⟨hsubject.symm, hkey.symm, by simp⟩
      · rcases hold : (bySubject records).get? q.principalId with _ | d'
        · simp [hold] at hp
        · rw [hold] at hp
          obtain ⟨h1, h2, h3⟩ := ih hold hp
          exact ⟨h1.trans hsubject.symm, h2, List.mem_append_left _ h3⟩
    · obtain ⟨h1, h2, h3⟩ := ih hd hp
      exact ⟨h1, h2, List.mem_append_left _ h3⟩

theorem mem_options {records : List VerifiedPrincipal} {subject : Str}
    {i : Str × VerifiedPrincipal} (h : i ∈ options records subject) :
    i.2.principalId = subject ∧ i.2.keyFingerprint = i.1 ∧ i.2 ∈ records := by
  have hmem := (List.perm_insertionSort textLe _).subset h
  rcases hd : (bySubject records).get? subject with _ | d
  · rw [hd] at hmem
    exact absurd hmem List.not_mem_nil
  · rw [hd] at hmem
    exact bySubject_spec hd (Dict.mem_items.mp hmem)

/-- CORRECT: the principals that are counted are among those given; no two are one subject, and no
    two have one key. -/
theorem independentPrincipals_spec (records : List VerifiedPrincipal) :
    ((independentPrincipals records).map (·.principalId)).Nodup ∧
      ((independentPrincipals records).map (·.keyFingerprint)).Nodup ∧
      ∀ p ∈ independentPrincipals records, p ∈ records := by
  have hsubjects : (subjects records).Nodup :=
    ((List.perm_insertionSort textLe _).map Prod.fst).nodup_iff.mpr (bySubject records).nodup
  have hmatched : Matching.Matched (options records) (·.principalId)
      (Matching.assignAll (options records) (·.principalId) (records.length + 1)
        (subjects records)) :=
    Matching.assignAll_matched (fun s i hi => (mem_options hi).1) _ hsubjects
  rw [independentPrincipals]
  generalize Matching.assignAll (options records) (·.principalId) (records.length + 1)
    (subjects records) = assigned at hmatched
  have hperm := List.perm_insertionSort principalLe assigned.values
  have hitem : ∀ i ∈ assigned.items, i.2.keyFingerprint = i.1 ∧ i.2 ∈ records := fun i hi =>
    (mem_options (hmatched.option i.1 i.2 (Dict.mem_items.mp hi))).2
  refine ⟨(hperm.map _).nodup_iff.mpr ?_, (hperm.map _).nodup_iff.mpr ?_, fun p hp => ?_⟩
  · rw [Dict.values, List.map_map]
    refine List.Nodup.map_on (fun i hi j hj he => ?_) (List.Nodup.of_map _ assigned.nodup)
    have hkey := hmatched.injective i.1 j.1 i.2 j.2 (Dict.mem_items.mp hi) (Dict.mem_items.mp hj) he
    exact List.inj_on_of_nodup_map assigned.nodup hi hj hkey
  · rw [Dict.values, List.map_map]
    have hkeys : assigned.items.map ((·.keyFingerprint) ∘ Prod.snd) =
        assigned.items.map Prod.fst := List.map_congr_left fun i hi => (hitem i hi).1
    rw [hkeys]
    exact assigned.nodup
  · obtain ⟨i, hi, rfl⟩ := List.mem_map.mp (hperm.subset hp)
    exact (hitem i hi).2

/-! ### The number of independent principals -/

/-- Principals of those given, no two of one subject and no two with one key. -/
structure Independent (records chosen : List VerifiedPrincipal) : Prop where
  given : ∀ p ∈ chosen, p ∈ records
  subjects : (chosen.map (·.principalId)).Nodup
  keys : (chosen.map (·.keyFingerprint)).Nodup

/-- Every subject was proved with the same key among the others. -/
def ProvedAmong (records others : List VerifiedPrincipal) : Prop :=
  ∀ p ∈ records, ∃ q ∈ others, q.principalId = p.principalId ∧ q.keyFingerprint = p.keyFingerprint

theorem bySubject_complete {records : List VerifiedPrincipal} {p : VerifiedPrincipal}
    (hp : p ∈ records) : ∃ d q, (bySubject records).get? p.principalId = some d ∧
      d.get? p.keyFingerprint = some q := by
  induction records using List.reverseRecOn with
  | nil => cases hp
  | append_singleton records r ih =>
    rw [bySubject, List.foldl_append, List.foldl_cons, List.foldl_nil, ← bySubject]
    simp only [Dict.get?_set]
    by_cases hs : p.principalId = r.principalId
    · rw [if_pos hs]
      by_cases hk : p.keyFingerprint = r.keyFingerprint
      · exact ⟨_, r, rfl, by rw [Dict.get?_set, if_pos hk]⟩
      · rcases List.mem_append.mp hp with hp | hp
        · obtain ⟨d, q, hd, hq⟩ := ih hp
          refine ⟨_, q, rfl, ?_⟩
          rw [Dict.get?_set, if_neg hk, ← hs, hd]
          exact hq
        · exact absurd (congrArg _ (List.mem_singleton.mp hp)) hk
    · rw [if_neg hs]
      rcases List.mem_append.mp hp with hp | hp
      · exact ih hp
      · exact absurd (congrArg _ (List.mem_singleton.mp hp)) hs

theorem options_complete {records : List VerifiedPrincipal} {p : VerifiedPrincipal}
    (hp : p ∈ records) : p.principalId ∈ subjects records ∧
      ∃ i ∈ options records p.principalId, i.1 = p.keyFingerprint := by
  obtain ⟨d, q, hd, hq⟩ := bySubject_complete hp
  have hsubject : p.principalId ∈ (bySubject records).items.map Prod.fst :=
    Dict.mem_keys.mpr (by rw [hd]; rfl)
  refine ⟨((List.perm_insertionSort textLe _).map Prod.fst).mem_iff.mpr hsubject,
    (p.keyFingerprint, q), ?_, rfl⟩
  rw [options, hd]
  exact (List.perm_insertionSort textLe _).mem_iff.mpr (Dict.mem_items.mpr hq)

theorem independentPrincipals_independent (records : List VerifiedPrincipal) :
    Independent records (independentPrincipals records) := by
  obtain ⟨hsubjects, hkeys, hgiven⟩ := independentPrincipals_spec records
  exact ⟨hgiven, hsubjects, hkeys⟩

/-- No independent selection is larger than the one that is counted. -/
theorem Independent.length_le {records chosen : List VerifiedPrincipal}
    (h : Independent records chosen) : chosen.length ≤ (independentPrincipals records).length := by
  have hsubjects : (Response.subjects records).Nodup :=
    ((List.perm_insertionSort textLe _).map Prod.fst).nodup_iff.mpr (bySubject records).nodup
  have hkeys : ∀ s, ∀ i ∈ options records s, i.1 ∈ (records.map (·.keyFingerprint)).toFinset := by
    intro s i hi
    obtain ⟨-, hkey, hmem⟩ := mem_options hi
    exact List.mem_toFinset.mpr (List.mem_map.mpr ⟨i.2, hmem, hkey⟩)
  have hfuel : (records.map (·.keyFingerprint)).toFinset.card < records.length + 1 := by
    have hcard := List.toFinset_card_le (records.map (·.keyFingerprint))
    rw [List.length_map] at hcard
    omega
  obtain ⟨S, hS⟩ := Matching.assignAll_covers (fun s i hi => (mem_options hi).1) hkeys hfuel
    hsubjects
  have hedges := hS.length_le (M := chosen.map fun p => (p.principalId, p.keyFingerprint))
    (by simpa [Function.comp_def] using h.subjects) (by simpa [Function.comp_def] using h.keys)
    fun e he => by
      obtain ⟨p, hp, rfl⟩ := List.mem_map.mp he
      exact options_complete (h.given p hp)
  rw [List.length_map] at hedges
  rw [independentPrincipals, List.length_insertionSort, Dict.values, List.length_map]
  exact hedges

/-- Only which subject was proved with which key matters to the number. -/
theorem length_mono {records others : List VerifiedPrincipal} (h : ProvedAmong records others) :
    (independentPrincipals records).length ≤ (independentPrincipals others).length := by
  have hchosen := independentPrincipals_independent records
  have hproved := fun p hp => h p (hchosen.given p hp)
  choose f hf using fun p : {p // p ∈ independentPrincipals records} => hproved p.1 p.2
  have hsubjects : (((independentPrincipals records).attach.map f).map (·.principalId)) =
      (independentPrincipals records).map (·.principalId) := by
    rw [List.map_map]
    exact (List.map_congr_left fun p _ => (hf p).2.1).trans List.attach_map_val
  have hkeys : (((independentPrincipals records).attach.map f).map (·.keyFingerprint)) =
      (independentPrincipals records).map (·.keyFingerprint) := by
    rw [List.map_map]
    exact (List.map_congr_left fun p _ => (hf p).2.2).trans List.attach_map_val
  have hothers : Independent others ((independentPrincipals records).attach.map f) := by
    refine ⟨fun q hq => ?_, hsubjects ▸ hchosen.subjects, hkeys ▸ hchosen.keys⟩
    obtain ⟨p, -, rfl⟩ := List.mem_map.mp hq
    exact (hf p).1
  simpa using hothers.length_le

/-- What the number of independent principals is, and what it depends on. -/
structure Counted (records : List VerifiedPrincipal) : Prop where
  independent : Independent records (independentPrincipals records)
  maximum : ∀ chosen, Independent records chosen →
    chosen.length ≤ (independentPrincipals records).length
  order : ∀ others, others.Perm records →
    (independentPrincipals others).length = (independentPrincipals records).length
  /-- A duplicate, or an alias of a subject and key that were proved together. -/
  repeated : ∀ p, ProvedAmong [p] records →
    (independentPrincipals (p :: records)).length = (independentPrincipals records).length
  more : ∀ others, (independentPrincipals records).length ≤
    (independentPrincipals (records ++ others)).length
  /-- Any other entry, an alias of a subject alone or of a key alone among them. -/
  single : ∀ p, (independentPrincipals (p :: records)).length ≤
    (independentPrincipals records).length + 1
  subjects : (independentPrincipals records).length ≤ (records.map (·.principalId)).dedup.length
  keys : (independentPrincipals records).length ≤ (records.map (·.keyFingerprint)).dedup.length

theorem provedAmong_of_subset {records others : List VerifiedPrincipal}
    (h : ∀ p ∈ records, p ∈ others) : ProvedAmong records others :=
  fun p hp => ⟨p, h p hp, rfl, rfl⟩

/-- An entry more is at most one principal more: without it, the selection is one of the rest. -/
theorem length_cons_le (records : List VerifiedPrincipal) (p : VerifiedPrincipal) :
    (independentPrincipals (p :: records)).length ≤ (independentPrincipals records).length + 1 := by
  have hchosen := independentPrincipals_independent (p :: records)
  set chosen := independentPrincipals (p :: records)
  have hsub : (chosen.erase p).Sublist chosen := List.erase_sublist
  have hnodup : chosen.Nodup := List.Nodup.of_map _ hchosen.subjects
  have hrest : Independent records (chosen.erase p) := by
    refine ⟨fun q hq => ?_, hchosen.subjects.sublist (hsub.map _), hchosen.keys.sublist (hsub.map _)⟩
    obtain ⟨hne, hq⟩ := hnodup.mem_erase_iff.mp hq
    exact (List.mem_cons.mp (hchosen.given q hq)).resolve_left hne
  have hlength := hrest.length_le
  have herase : chosen.length - 1 ≤ (chosen.erase p).length := by
    rw [List.length_erase]
    split <;> omega
  omega

/-- Entries with distinct values are no more than the values that were given. -/
theorem length_le_dedup {records chosen : List VerifiedPrincipal} {f : VerifiedPrincipal → Str}
    (hgiven : ∀ p ∈ chosen, p ∈ records) (hnodup : (chosen.map f).Nodup) :
    chosen.length ≤ (records.map f).dedup.length := by
  have hsubset : chosen.map f ⊆ (records.map f).dedup := by
    intro s hs
    obtain ⟨p, hp, rfl⟩ := List.mem_map.mp hs
    exact List.mem_dedup.mpr (List.mem_map_of_mem (hgiven p hp))
  have hle := (List.subperm_of_subset hnodup hsubset).length_le
  rwa [List.length_map] at hle

/-- CORRECT: the principals that are counted are a maximum matching of subjects and keys. Their
    number depends on the pairs of subject and key alone, not on the order or on repetitions; an
    entry more never lowers it and raises it by at most one, and it is bounded by the subjects and
    by the keys. -/
theorem independentPrincipals_counted (records : List VerifiedPrincipal) : Counted records := by
  have hchosen := independentPrincipals_independent records
  refine ⟨hchosen, fun _ h => h.length_le, fun others hperm => ?_, fun p hp => ?_,
    fun others => ?_, length_cons_le records, length_le_dedup hchosen.given hchosen.subjects,
    length_le_dedup hchosen.given hchosen.keys⟩
  · exact le_antisymm (length_mono (provedAmong_of_subset fun p hp => hperm.subset hp))
      (length_mono (provedAmong_of_subset fun p hp => hperm.symm.subset hp))
  · refine le_antisymm (length_mono fun q hq => ?_)
      (length_mono (provedAmong_of_subset fun q hq => List.mem_cons_of_mem _ hq))
    rcases List.mem_cons.mp hq with rfl | hq
    · exact hp q List.mem_cons_self
    · exact ⟨q, hq, rfl, rfl⟩
  · exact length_mono (provedAmong_of_subset fun p hp => List.mem_append_left _ hp)

/-- A proof of a subject with a key. -/
def VerifiedPrincipal.of (subject key : Str) : VerifiedPrincipal :=
  { principalId := subject, issuer := "os".toList, subject, credentialId := subject
    keyFingerprint := key, expiresAt := .int 200 }

/-- Two subjects share a key. One of them proves a second key, which is an alias of that subject,
    and the two count as independent. -/
theorem alias_counts : ∃ records p, (∃ q ∈ records, q.principalId = p.principalId) ∧
    (independentPrincipals (p :: records)).length ≠ (independentPrincipals records).length := by
  refine ⟨[.of "user-1".toList "first".toList, .of "user-2".toList "first".toList],
    .of "user-1".toList "second".toList, ?_, ?_⟩
  · exact ⟨_, List.mem_cons_self, rfl⟩
  · decide

end Angerona.Response
