import Angerona.Lib.PyEq
import Angerona.Lib.Raising
import Angerona.Lib.Transition
import Angerona.Response.Identity

/-!
    Signed policy bundles (`core/policy_bundle.py`): their verification, the layered resolution of
    an effective policy, and the manager that keeps the last good bundle of each layer. -/

namespace Angerona.Policies
open Text PyJson Response

/-! ### Bundles -/

/-- `_IDENTIFIER`. -/
def isIdentifier : Str → Bool
  | [] => false
  | c :: cs => c.isAlphanum ∧ cs.length ≤ 127 ∧
      cs.all fun c => c.isAlphanum ∨ c ∈ "._:@-".toList

inductive PolicyLayer where
  | fleet | group | local
  deriving DecidableEq

def PolicyLayer.text : PolicyLayer → String
  | .fleet => "fleet"
  | .group => "group"
  | .local => "local"

inductive RolloutState where
  | staged | canary | general
  deriving DecidableEq

def RolloutState.text : RolloutState → String
  | .staged => "staged"
  | .canary => "canary"
  | .general => "general"

inductive Channel where
  | configuration | detection | remediation
  deriving DecidableEq

def Channel.text : Channel → String
  | .configuration => "configuration"
  | .detection => "detection"
  | .remediation => "remediation"

structure PolicyApproval where
  approverId : Str
  signature : Str
  principalProof : Option SignedPrincipalProof
  matches_proof : ∀ p ∈ principalProof, p.credentialId = approverId ∧ p.signature = signature

/-- A setting, as a tuple or as a list of two. -/
structure Row where
  tuple : Bool
  key : Str
  value : Value

structure PolicyBundle where
  bundleId : Str
  version : ℕ
  publisherId : Str
  channel : Channel
  layer : PolicyLayer
  settings : List Row
  lockedKeys : List Str
  rollout : RolloutState
  canaryPercent : ℤ
  highImpact : Bool
  expiresAt : Stamp
  approvals : List PolicyApproval
  signature : Str
  named : isIdentifier bundleId = true ∧ isIdentifier publisherId = true ∧ 1 ≤ version
  finite : expiresAt.isFinite = true
  keys : settings.length ≤ 1000 ∧ (settings.map Row.key).Nodup ∧
    ∀ row ∈ settings, row.key ≠ [] ∧ row.key.length ≤ 200
  locked : lockedKeys.Nodup ∧ ∀ key ∈ lockedKeys, key ∈ settings.map Row.key
  approved : approvals.length ≤ 128
  percent : if rollout = .canary then 1 ≤ canaryPercent ∧ canaryPercent ≤ 99 else canaryPercent = 0

/-- `asdict(proof)`. -/
def proofValue (p : SignedPrincipalProof) : Value :=
  record (p.signedFields ++ [("signature".toList, .str p.signature)])

/-- The fields of `asdict(bundle)` without the approvals and the signature. -/
def PolicyBundle.fields (b : PolicyBundle) : List (Str × Value) :=
  [("bundle_id".toList, .str b.bundleId), ("version".toList, .int b.version),
    ("publisher_id".toList, .str b.publisherId), ("channel".toList, .str b.channel.text.toList),
    ("layer".toList, .str b.layer.text.toList),
    ("settings".toList, .list (b.settings.map fun row => .list [.str row.key, row.value])),
    ("locked_keys".toList, .list (b.lockedKeys.map .str)),
    ("rollout".toList, .str b.rollout.text.toList),
    ("canary_percent".toList, .int b.canaryPercent), ("high_impact".toList, .bool b.highImpact),
    ("expires_at".toList, b.expiresAt.value), ("schema_version".toList, .int 1)]

/-- What `approval_body` writes. -/
def PolicyBundle.approvalBody (b : PolicyBundle) : Value := record b.fields

/-- What `canonical_signed` writes. -/
def PolicyBundle.signedBody (b : PolicyBundle) : Value :=
  record (b.fields ++ [("approvals".toList, .list (b.approvals.map fun a => record
    [("approver_id".toList, .str a.approverId), ("signature".toList, .str a.signature),
      ("principal_proof".toList, (a.principalProof.map proofValue).getD .null)]))])

/-! ### Verification -/

/-- What an approver is trusted by. -/
inductive Approver where
  /-- A public key under a label. -/
  | label (key : List UInt8)
  | credential (record : PrincipalCredential)

structure Machine where
  identity : Response.Machine
  /-- `hashlib.sha256(_canonical(value)).hexdigest()`. -/
  sha256 : Value → Str
  /-- The text is the encoding of a signature of the canonical text under the public key. -/
  signed : List UInt8 → Value → Str → Bool

/-- The publishers and the approvers a manager trusts. -/
structure Trust where
  publishers : Dict Str (List UInt8)
  approvers : Dict Str Approver

/-- `ApprovalIdentityVerifier([credential])`. -/
def verifierOf (credential : PrincipalCredential) : ApprovalIdentityVerifier :=
  ⟨[credential], List.nodup_singleton _, []⟩

section Verify

variable (m : Machine) (trust : Trust)

/-- What the loop over the approvals makes of one: a principal, or that its subject is unbound. -/
def proven (b : PolicyBundle) (stamp : Double) (approval : PolicyApproval) :
    Option VerifiedPrincipal × Bool :=
  match trust.approvers.get? approval.approverId with
  | none => (none, false)
  | some (.label _) => (none, true)
  | some (.credential credential) =>
    if credential.enabled = false ∨
        credential.expiresAt.truthy ∧ credential.expiresAt.le (reading stamp) then (none, false)
    else
      match approval.principalProof with
      | none => (none, true)
      | some proof =>
        (m.identity.verify (verifierOf credential) proof (m.sha256 b.approvalBody) stamp, false)

/-- `verify_bundle`. -/
def verifyBundle (b : PolicyBundle) (now : PyFloat) : Bool × String :=
  match now with
  | .finite stamp =>
    if b.expiresAt.le (reading stamp) then (false, "bundle expired")
    else
      match trust.publishers.get? b.publisherId with
      | none => (false, "publisher is not trusted")
      | some publisher =>
        if publisher.length ≠ 32 then (false, "publisher is not trusted")
        else if m.signed publisher b.signedBody b.signature = false then
          (false, "publisher signature invalid")
        else if b.highImpact = false then (true, "verified")
        else if (b.approvals.map PolicyApproval.approverId).eraseDups.length < 2 then
          (false, "high-impact policy requires two distinct approvals")
        else
          let results := b.approvals.map (proven m trust b stamp)
          if (independentPrincipals (results.filterMap Prod.fst)).length < 2 then
            if results.any Prod.snd then
              (false, "high-impact authenticated approver subject bindings unavailable")
            else (false, "high-impact approvals are invalid or untrusted")
          else (true, "verified")
  | _ => (false, "policy verification time is invalid")

end Verify

/-! ### The layers -/

structure PolicyDiff where
  key : Str
  before : Value
  after : Value
  sourceBundle : Str
  blockedByLock : Bool

structure EffectivePolicy where
  channel : Channel
  settings : List (Str × Value)
  sources : List (Str × Str)
  lockedKeys : List Str
  bundleIds : List Str

inductive Fault where
  /-- A list and a tuple were compared. -/
  | type
  /-- `ValueError(reason)`. -/
  | refused (reason : String)
  deriving DecidableEq

/-- `sorted(bundle.settings)`; the keys are different, so no values are compared. -/
def PolicyBundle.sorted (b : PolicyBundle) : Except Fault (List (Str × Value)) :=
  if b.settings.any Row.tuple ∧ b.settings.any (!·.tuple) then .error .type
  else .ok ((b.settings.map fun row => (row.key, row.value)).insertionSort textLe)

/-- What the loop over the layers has found. -/
structure Resolution where
  values : Dict Str Value
  sources : Dict Str Str
  locked : List Str
  diffs : List PolicyDiff
  used : List Str

def Resolution.new : Resolution := ⟨.empty, .empty, [], [], []⟩

/-- `values.get(key)`. -/
def Resolution.before (w : Resolution) (key : Str) : Value := (w.values.get? key).getD .null

/-- One setting of a bundle. -/
def Resolution.apply (bundleId : Str) (w : Resolution) (item : Str × Value) : Resolution :=
  if w.locked.contains item.1 then
    { w with diffs := w.diffs ++ [⟨item.1, w.before item.1, item.2, bundleId, true⟩] }
  else
    { w with
      diffs := if (w.before item.1).eq item.2 then w.diffs
        else w.diffs ++ [⟨item.1, w.before item.1, item.2, bundleId, false⟩]
      values := w.values.set item.1 item.2
      sources := w.sources.set item.1 bundleId }

/-- One layer. -/
def Resolution.layer (w : Resolution) : Option PolicyBundle → Except Fault Resolution
  | none => .ok w
  | some b => do
    let settings ← b.sorted
    let w := settings.foldl (Resolution.apply b.bundleId) { w with used := w.used ++ [b.bundleId] }
    .ok { w with locked := w.locked ++ b.lockedKeys }

def Resolution.effective (w : Resolution) (channel : Channel) : EffectivePolicy where
  channel := channel
  settings := w.values.items.insertionSort textLe
  sources := w.sources.items.insertionSort textLe
  lockedKeys := w.locked.eraseDups.insertionSort (· ≤ ·)
  bundleIds := w.used

/-- `order`. -/
def order : List PolicyLayer := [.fleet, .group, .local]

/-- `(a.version, a.bundle_id) > (b.version, b.bundle_id)`. -/
def PolicyBundle.newer (a b : PolicyBundle) : Bool :=
  b.version < a.version ∨ a.version = b.version ∧ b.bundleId < a.bundleId

/-- `by_layer`. -/
def byLayer (bundles : List PolicyBundle) : Dict PolicyLayer PolicyBundle :=
  bundles.foldl (fun d b =>
    match d.get? b.layer with
    | none => d.set b.layer b
    | some current => if b.newer current then d.set b.layer b else d) .empty

/-- `resolve_effective`. -/
def resolveEffective (bundles : List PolicyBundle) (channel : Channel) :
    Except Fault (EffectivePolicy × List PolicyDiff) := do
  let chosen := byLayer (bundles.filter fun b => b.channel = channel)
  let w ← order.foldlM (fun w l => w.layer (chosen.get? l)) Resolution.new
  .ok (w.effective channel, w.diffs)

/-! ### The manager -/

/-- `PolicyManager`: whom it trusts, and `_good`. -/
structure PolicyManager where
  trust : Trust
  good : Dict (Channel × PolicyLayer) PolicyBundle

def PolicyManager.new (trust : Trust) : PolicyManager := ⟨trust, .empty⟩

namespace PolicyManager

variable (m : Machine) (manager : PolicyManager)

/-- `submit`. -/
def submit (b : PolicyBundle) (now : PyFloat) : PolicyManager × Bool × String :=
  match verifyBundle m manager.trust b now with
  | (false, reason) => (manager, false, reason)
  | (true, _) =>
    match manager.good.get? (b.channel, b.layer) with
    | some current =>
      if b.version ≤ current.version then (manager, false, "bundle version is not newer")
      else ({ manager with good := manager.good.set (b.channel, b.layer) b }, true, "accepted")
    | none => ({ manager with good := manager.good.set (b.channel, b.layer) b }, true, "accepted")

/-- `bundle.expires_at > stamp`. -/
def unexpired (b : PolicyBundle) (now : PyFloat) : Bool := Stamp.lt (.float now) b.expiresAt

/-- `effective`. -/
def effective (channel : Channel) (now : PyFloat) : Except Fault EffectivePolicy :=
  (resolveEffective (manager.good.values.filter fun b => b.channel = channel ∧ unexpired b now ∧
    (verifyBundle m manager.trust b now).1) channel).map Prod.fst

/-- `simulate`. -/
def simulate (b : PolicyBundle) (now : PyFloat) :
    Except Fault (EffectivePolicy × List PolicyDiff) :=
  match verifyBundle m manager.trust b now with
  | (false, reason) => .error (.refused reason)
  | (true, _) =>
    let existing := (manager.good.items.filter fun item =>
      item.1.1 = b.channel ∧ item.1 ≠ (b.channel, b.layer)).map Prod.snd
    resolveEffective (existing ++ [b]) b.channel

end PolicyManager

end Angerona.Policies
