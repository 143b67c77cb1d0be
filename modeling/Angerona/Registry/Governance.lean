import Angerona.Lib.Dict
import Angerona.Lib.Effect
import Angerona.Lib.Text

/-!
    The governance of a detection registry root, `DetectionPackageRegistry`.

    The policy of a root is in its manifest and again in an anchor file, each sealed by the root key.
    Every open and every transition runs under the lock of the root. A durable step replaces one
    file; `budget` is how many of them are left before the process is killed, and `none` when it is
    not. The floor is what a process remembers of the policies it has opened. -/

namespace Angerona.Registry
open Text Effect

/-! ### Documents -/

inductive State where
  | staged
  | active
  | retired
  | quarantined
  deriving DecidableEq

/-- What the manifest says of one digest. -/
structure Record where
  state : State
  previousDigest : Option Str
  trusted : Bool
  signer : Option Str

/-- The packages of the manifest, and the digests of each. -/
abbrev Packages := Dict Str (Dict Str Record)

inductive Mode where
  | none
  | processIdentity
  | rootHmac
  deriving DecidableEq

/-- The governance policy of a manifest. -/
structure Policy where
  mode : Mode
  authorityId : Option Str
  requireSigned : Bool
  trustedKeysPath : Option Str
  policyHmac : Option Str

/-- `_governance_unsigned`. -/
def Policy.unsigned (p : Policy) : Policy := { p with policyHmac := none }

/-- `registry.json`; a manifest of the first version has no governance. -/
structure Manifest where
  packages : Packages
  activationPolicy : Option Str
  governance : Option Policy

/-- `registry-governance.anchor.json`. -/
structure Anchor where
  generation : ℕ
  authorityId : Option Str
  requireSigned : Bool
  trustedKeysPath : Option Str
  hmac : Str

def Anchor.unsigned (a : Anchor) : Anchor := { a with hmac := [] }

abbrev Key := List UInt8

/-- A transition authority: a root key, or an object of the process. -/
inductive Authority where
  | key (k : Key)
  | object (o : ℕ)
  deriving DecidableEq

/-- The digest of a root key, and its tags of a policy and of an anchor. -/
structure Seals where
  authorityId : Key → Str
  policyMac : Key → Policy → Str
  anchorMac : Key → Anchor → Str

/-! ### The root and its processes -/

/-- An entry of `_ROOT_POLICY_FLOORS`. -/
structure Floor where
  authorityId : Option Str
  signed : Bool
  trusted : Option Str

/-- What an open or a transition succeeded under. -/
inductive Event where
  | opened (p : Policy)
  | moved (p : Policy)

def Event.policy : Event → Policy
  | .opened p => p
  | .moved p => p

structure World where
  manifest : Option Manifest
  anchor : Option Anchor
  floors : ℕ → Option Floor
  /-- The entries of `_IDENTITY_AUTHORITIES`. -/
  enrolled : ℕ → Option (ℕ × Str)
  budget : Option ℕ
  log : List Event

inductive Raised where
  | validation (message : String)
  | crash

abbrev Deed := Effect Raised World

/-- One durable step. -/
def durable (f : World → World) : Deed Unit := do
  let w ← read
  check (w.budget ≠ some 0) .crash
  modify fun w => { f w with budget := w.budget.map (· - 1) }

/-- `_write_manifest`. -/
def writeManifest (m : Manifest) : Deed Unit := durable fun w => { w with manifest := some m }

/-- The arguments of the constructor, and the process that runs it. -/
structure Request where
  proc : ℕ
  authority : Option Authority
  signed : Bool
  trusted : Option Str
  /-- `secrets.token_hex`. -/
  token : Str

/-- The key of an authority that is bytes. -/
def rootKey (authority : Option Authority) : Option Key :=
  authority.bind fun
    | .key k => some k
    | .object _ => none

/-- An open registry. -/
structure Handle where
  proc : ℕ
  authority : Option Authority
  requireSigned : Bool
  trusted : Option Str

variable (S : Seals)

/-- The value of `activation_policy`. -/
def activation (signed : Bool) : Str :=
  if signed then "signed_only".toList else "development_unsigned_override".toList

/-! ### The anchor -/

def sealedAnchor (k : Key) (p : Policy) (generation : ℕ) : Anchor :=
  let a : Anchor := ⟨generation, p.authorityId, p.requireSigned, p.trustedKeysPath, []⟩
  { a with hmac := S.anchorMac k a.unsigned }

/-- `_write_governance_anchor`. -/
def writeAnchor (key : Option Key) (p : Policy) (generation : ℕ) : Deed Unit := do
  check (1 ≤ generation) (.validation "registry governance generation is invalid")
  let k ← demand key (.validation "persistent governance anchor requires root authority")
  durable fun w => { w with anchor := some (sealedAnchor S k p generation) }

/-- `_read_governance_anchor`. -/
def readAnchor (key : Option Key) : Deed Anchor := do
  let w ← read
  let a ← demand w.anchor (.validation "registry governance anchor is unreadable")
  check (1 ≤ a.generation) (.validation "registry governance anchor values are invalid")
  let k ← demand key (.validation "persistent governance anchor requires root authority")
  check (a.hmac = S.anchorMac k a.unsigned)
    (.validation "registry governance anchor authority HMAC is invalid")
  pure a

/-- The anchor repeats the policy. -/
def Anchor.Repeats (a : Anchor) (p : Policy) : Prop :=
  a.authorityId = p.authorityId ∧ a.requireSigned = p.requireSigned ∧
    a.trustedKeysPath = p.trustedKeysPath

instance (a : Anchor) (p : Policy) : Decidable (a.Repeats p) :=
  inferInstanceAs (Decidable (_ ∧ _))

/-- `_assert_governance_anchor`. -/
def assertAnchor (p : Policy) (a : Anchor) : Deed Unit :=
  check (a.Repeats p) (.validation "registry governance manifest was partially rolled back")

/-! ### The policy -/

/-- A policy under a root key, with its tag. -/
def rootPolicy (k : Key) (signed : Bool) (trusted : Option Str) : Policy :=
  let p : Policy := ⟨.rootHmac, some (S.authorityId k), signed, trusted, none⟩
  { p with policyHmac := some (S.policyMac k p.unsigned) }

/-- `_new_governance_policy`. -/
def newPolicy (r : Request) (signed : Bool) : Deed Policy :=
  match r.authority with
  | some (.key k) => pure (rootPolicy S k signed r.trusted)
  | some (.object o) => do
    modify fun w => { w with enrolled := Function.update w.enrolled r.proc (some (o, r.token)) }
    pure ⟨.processIdentity, some r.token, signed, r.trusted, none⟩
  | none => pure ⟨.none, none, signed, r.trusted, none⟩

/-- A manifest with its policy, and whether it is to be written. -/
structure Loaded where
  manifest : Manifest
  policy : Policy
  changed : Bool

/-- A policy where there was none, or one without authority. -/
def upgrade (r : Request) (m : Manifest) (signed : Bool) : Deed Loaded := do
  let p ← newPolicy S r signed
  pure ⟨{ m with activationPolicy := some (activation signed), governance := some p }, p, true⟩

/-- The entry of `_IDENTITY_AUTHORITIES` is for this authority and this policy. -/
def World.Enrolled (w : World) (proc : ℕ) (authority : Option Authority) (p : Policy) : Prop :=
  (w.enrolled proc).any (fun e => authority = some (.object e.1) ∧ p.authorityId = some e.2) = true

instance (w : World) (proc : ℕ) (authority : Option Authority) (p : Policy) :
    Decidable (w.Enrolled proc authority p) := inferInstanceAs (Decidable (_ = true))

/-- The authority the mode of the policy asks for. -/
def checkAuthority (r : Request) (p : Policy) : Deed Unit :=
  match p.mode with
  | .rootHmac => do
    let k ← demand (rootKey r.authority)
      (.validation "root-bound registry governance authority is required")
    check (p.authorityId = some (S.authorityId k))
      (.validation "registry governance authority is invalid")
    check (p.policyHmac = some (S.policyMac k p.unsigned))
      (.validation "registry governance policy HMAC is invalid")
  | .processIdentity => do
    let w ← read
    check (w.Enrolled r.proc r.authority p)
      (.validation "process-bound registry authority cannot be reopened or substituted")
  | .none => pure ()

/-- The request asks for more than the policy has. -/
def Policy.Tightens (p : Policy) (r : Request) : Prop :=
  (p.requireSigned || r.signed) ≠ p.requireSigned ∨ (p.trustedKeysPath = none ∧ r.trusted ≠ none)

instance (p : Policy) (r : Request) : Decidable (p.Tightens r) :=
  inferInstanceAs (Decidable (_ ∨ _))

/-- The policy with what the request asks for. -/
def Policy.tightened (p : Policy) (r : Request) : Policy :=
  let p := { p with requireSigned := p.requireSigned || r.signed, trustedKeysPath := r.trusted }
  if p.mode = .rootHmac then
    { p with policyHmac := some ((rootKey r.authority).elim [] fun k => S.policyMac k p.unsigned) }
  else p

/-- The end of `_load_governance_policy`. Whatever changed, the activation policy becomes
    `signed_only`. -/
def tighten (r : Request) (m : Manifest) (p : Policy) : Deed Loaded :=
  let loaded : Loaded :=
    if p.Tightens r then
      ⟨{ m with activationPolicy := some (activation true), governance := some (p.tightened S r) },
        p.tightened S r, true⟩
    else ⟨m, p, false⟩
  do
  check (loaded.manifest.activationPolicy = some (activation (p.requireSigned || r.signed)))
    (.validation "registry activation policy diverges from governance")
  pure loaded

/-- `_load_governance_policy`. -/
def loadPolicy (r : Request) (m : Manifest) : Deed Loaded :=
  m.governance.elim
    (upgrade S r m (decide (m.activationPolicy = some (activation true)) || r.signed)) fun p => do
    check (p.requireSigned = true → r.signed = true)
      (.validation "signed registry policy cannot be downgraded")
    check (p.trustedKeysPath = none ∨ p.trustedKeysPath = r.trusted)
      (.validation "registry trusted publisher store cannot be substituted")
    checkAuthority S r p
    if p.mode = .none ∧ r.authority ≠ none then upgrade S r m (p.requireSigned || r.signed)
    else tighten S r m p

/-! ### Opening a root -/

/-- A root without a manifest. -/
def create (r : Request) : Deed Policy := do
  let p ← newPolicy S r r.signed
  writeManifest ⟨Dict.empty, some (activation r.signed), some p⟩
  (rootKey r.authority).elim (pure ()) fun k => writeAnchor S (some k) p 1
  pure p

/-- The anchor of a policy that must have one. -/
def priorAnchor (r : Request) (prior : Option Policy) : Deed (Option Anchor) :=
  prior.elim (pure none) fun p =>
    if p.mode = .rootHmac then do
      let w ← read
      check (w.anchor.isSome = true) (.validation "root-governed registry anchor is missing")
      let a ← readAnchor S (rootKey r.authority)
      assertAnchor p a
      pure (some a)
    else pure none

/-- Writes what the load changed. -/
def publish (loaded : Loaded) : Deed Unit :=
  if loaded.changed then writeManifest loaded.manifest else pure ()

/-- Brings the anchor in step with the policy. -/
def settle (r : Request) (governed : Bool) (prior : Option Anchor) (loaded : Loaded) : Deed Unit :=
  if loaded.policy.mode = .rootHmac then
    prior.elim (do
      check (governed = false)
        (.validation "existing governance cannot mint a new root anchor")
      writeAnchor S (rootKey r.authority) loaded.policy 1) fun a =>
        if loaded.changed then
          writeAnchor S (rootKey r.authority) loaded.policy (a.generation + 1)
        else assertAnchor loaded.policy a
  else pure ()

/-- A root with a manifest. -/
def reopen (r : Request) (m : Manifest) : Deed Policy := do
  let prior ← priorAnchor S r m.governance
  let loaded ← loadPolicy S r m
  publish loaded
  settle S r m.governance.isSome prior loaded
  pure loaded.policy

/-- The floor of a process, if it has one. -/
def World.floor (w : World) (proc : ℕ) : Floor := (w.floors proc).getD ⟨none, false, none⟩

/-- `_register_policy_floor`. -/
def registerFloor (proc : ℕ) (p : Policy) : Deed Unit := do
  let w ← read
  let prior := w.floor proc
  check (prior.authorityId = none ∨ p.authorityId = prior.authorityId)
    (.validation "registry root authority cannot be replaced in-process")
  check (prior.trusted = none ∨ p.trustedKeysPath = prior.trusted)
    (.validation "registry trusted publisher store cannot be replaced in-process")
  check (prior.signed = true → p.requireSigned = true)
    (.validation "registry signature floor cannot be reopened below signed-only")
  modify fun w => { w with
    floors := Function.update w.floors proc (some ⟨prior.authorityId.or p.authorityId,
      prior.signed || p.requireSigned, prior.trusted.or p.trustedKeysPath⟩) }

/-- `DetectionPackageRegistry(…)`. -/
def construct (r : Request) : Deed Handle := do
  check ((rootKey r.authority).all (·.length = 32) = true)
    (.validation "persistent registry governance authority must contain 32 bytes")
  let w ← read
  let p ← w.manifest.elim (create S r) (reopen S r)
  registerFloor r.proc p
  modify fun w => { w with log := w.log ++ [.opened p] }
  pure ⟨r.proc, r.authority, p.requireSigned, r.trusted⟩

/-! ### Transitions -/

/-- `assert_transition_authority`. -/
def assertTransitionAuthority (h : Handle) (capability : Option Authority) : Deed Unit :=
  check (capability = h.authority) (.validation (match h.authority with
    | none => "transition capability supplied to an ungoverned registry"
    | some (.key _) => "registry transition requires root-bound governance authority"
    | some (.object _) => "registry transition requires DetectionForge coordinator authority"))

/-- The authority that the mode of a policy asks of a handle. -/
def checkHandle (h : Handle) (transition : Bool) (p : Policy) : Deed Unit :=
  match p.mode with
  | .rootHmac => do
    let k ← demand (rootKey h.authority)
      (.validation "root-bound registry authority is unavailable")
    check (p.authorityId = some (S.authorityId k) ∧
        p.policyHmac = some (S.policyMac k p.unsigned))
      (.validation "registry governance authority is invalid")
    let w ← read
    check (w.anchor.isSome = true) (.validation "registry governance anchor is missing")
    let a ← readAnchor S (some k)
    assertAnchor p a
  | .processIdentity => do
    let w ← read
    check (w.Enrolled h.proc h.authority p)
      (.validation "registry process authority is invalid")
  | .none => check (¬(transition = true ∧ h.authority ≠ none))
      (.validation "registry governance mode changed")

/-- `_assert_manifest_policy`, and the policy it accepts. -/
def assertManifestPolicy (h : Handle) (transition : Bool) (m : Manifest) : Deed Policy := do
  let p ← demand m.governance (.validation "registry governance policy is invalid")
  check (h.requireSigned = true → p.requireSigned = true)
    (.validation "registry signature policy replay would downgrade this instance")
  let w ← read
  let floor := w.floor h.proc
  check (floor.authorityId = none ∨ p.authorityId = floor.authorityId)
    (.validation "registry root authority replay detected")
  check (floor.signed = true → p.requireSigned = true)
    (.validation "registry signature policy replay detected")
  check (floor.trusted = none ∨ p.trustedKeysPath = floor.trusted)
    (.validation "registry trust-store replay detected")
  check (m.activationPolicy = some (activation p.requireSigned))
    (.validation "registry activation policy diverges from governance")
  check (p.trustedKeysPath = h.trusted)
    (.validation "registry trusted publisher store changed")
  checkHandle S h transition p
  pure p

/-- `_manifest`. -/
def readManifest : Deed Manifest := do
  let w ← read
  demand w.manifest (.validation "registry manifest is invalid")

/-- A transition under the lock: `edit` says what is written, if anything, under the policy. -/
def transition (h : Handle) (capability : Option Authority)
    (edit : Policy → Packages → Option Packages) : Deed Unit := do
  assertTransitionAuthority h capability
  let m ← readManifest
  let p ← assertManifestPolicy S h true m
  (edit p m.packages).elim (pure ()) fun packages => writeManifest { m with packages }
  modify fun w => { w with log := w.log ++ [.moved p] }

end Angerona.Registry
