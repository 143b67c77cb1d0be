import Angerona.Lib.Segments
import Angerona.Response.Identity

/-!
    Scoped authorization (`core/authorization.py`): principals, roles, bindings, and the decisions
    of a policy that remembers them for a time. -/

namespace Angerona.Authorization
open Text PyJson Response

/-! ### Formats -/

/-- `_IDENTIFIER`. -/
def isIdentifier (s : Str) : Bool :=
  s ≠ [] ∧ s.length ≤ 160 ∧ s.all fun c => c.isAlphanum ∨ c ∈ "_.:@/-".toList

/-- A part of a permission. -/
def isPart : Str → Bool
  | [] => false
  | c :: cs => (c = '*' ∧ cs = []) ∨
      c.isLower ∧ cs.all fun c => c.isLower ∨ c.isDigit ∨ c = '_' ∨ c = '-'

/-- `_validate_permission`. -/
def isPermission (s : Str) : Bool :=
  let parts := segments '.' s
  2 ≤ parts.length ∧ parts.length ≤ 5 ∧ parts.all isPart ∧ !parts.dropLast.contains ['*']

/-- `_validate_scope`. -/
def isScope (s : Str) : Bool :=
  isIdentifier s ∧ s.head? ≠ some '/' ∧ s.getLast? ≠ some '/' ∧ !occurs "//".toList s ∧
    (segments '/' s).all fun p => p ≠ [] ∧ p ≠ ".".toList ∧ p ≠ "..".toList

/-- `_matches_permission`. -/
def matchesPermission (rule requested : Str) : Bool :=
  rule = requested ∨ ".*".toList <:+ rule ∧ rule.dropLast <+: requested

/-- `scope.rstrip("/")`. -/
def rstripSlash (s : Str) : Str := s.rdropWhile (· = '/')

/-- `_scope_contains`. -/
def scopeContains (bindingScope requestedScope : Str) : Bool :=
  requestedScope = bindingScope ∨ rstripSlash bindingScope ++ ['/'] <+: requestedScope

/-! ### The policy -/

/-- A time after which something is void; zero for none. -/
structure Deadline where
  stamp : Stamp
  finite : stamp.isFinite = true
  nonneg : Stamp.le (.int 0) stamp = true

/-- `float(value)`. -/
def Deadline.float (d : Deadline) : Double :=
  match d.stamp with
  | .int n => (Double.ofInt n).getD .zero
  | .float (.finite f) => f
  | .float _ => .zero

inductive PrincipalKind where
  | human | service
  deriving DecidableEq

def PrincipalKind.text : PrincipalKind → String
  | .human => "human"
  | .service => "service"

structure Principal where
  principalId : Str
  kind : PrincipalKind
  enabled : Bool
  expiresAt : Deadline
  named : isIdentifier principalId = true
  bounded : kind = .service → expiresAt.stamp.truthy = true

structure Role where
  roleId : Str
  allow : List Str
  deny : List Str
  named : isIdentifier roleId = true
  size : allow.length + deny.length ≤ 256
  formed : ∀ rule ∈ allow ++ deny, isPermission rule = true

structure RoleBinding where
  principalId : Str
  roleId : Str
  scope : Str
  expiresAt : Deadline
  named : isIdentifier principalId = true ∧ isIdentifier roleId = true
  canonical : isScope scope = true

structure AuthorizationRequest where
  requestId : Str
  principalId : Str
  permission : Str
  scope : Str
  resourceId : Str
  named : isIdentifier requestId = true ∧ isIdentifier principalId = true
  formed : isPermission permission = true
  canonical : isScope scope = true
  resource : resourceId = [] ∨ isIdentifier resourceId = true

/-- The principals and the roles by their ids, and the bindings, which name them. -/
structure AuthorizationPolicy where
  principals : Dict Str Principal
  roles : Dict Str Role
  bindings : List RoleBinding
  policyHash : Str
  keyed : (∀ i p, principals.get? i = some p → p.principalId = i) ∧
    ∀ i r, roles.get? i = some r → r.roleId = i
  bound : ∀ b ∈ bindings, (principals.get? b.principalId).isSome = true ∧
    (roles.get? b.roleId).isSome = true

/-! ### Decisions -/

structure AuthorizationDecision where
  requestId : Str
  principalId : Str
  permission : Str
  scope : Str
  resourceId : Str
  requestDigest : Str
  allowed : Bool
  reason : String
  matchedRoles : List Str
  principalKind : String
  decidedAt : Double
  validUntil : Double
  policyHash : Str
  receiptHmac : Str

/-- Digests of the canonical texts of values. -/
structure Machine where
  /-- `hashlib.sha256(_canonical(value)).hexdigest()`. -/
  sha256 : Value → Str
  /-- `hmac.new(self._key, _canonical(value), hashlib.sha256).hexdigest()`. -/
  hmac : Value → Str

inductive Fault where
  /-- `ValueError("authorization time must be finite and non-negative")`. -/
  | time
  /-- `ValueError("request ID is already bound to another operation")`. -/
  | bound
  /-- What the audit sink raises. -/
  | sink
  deriving DecidableEq

/-- `request_core`. -/
def AuthorizationRequest.core (r : AuthorizationRequest) : List (Str × Value) :=
  [("request_id".toList, .str r.requestId), ("principal_id".toList, .str r.principalId),
    ("permission".toList, .str r.permission), ("scope".toList, .str r.scope),
    ("resource_id".toList, .str r.resourceId)]

def Machine.requestDigest (m : Machine) (r : AuthorizationRequest) : Str :=
  m.sha256 (record r.core)

/-- What a policy says of a request at a time. -/
structure Verdict where
  allowed : Bool
  reason : String
  roles : List Role
  validUntil : Double

/-- `min(expiries, default=0.0)`. -/
def earliest : List Double → Double
  | [] => .zero
  | d :: ds => ds.foldl (fun a b => if b < a then b else a) d

namespace AuthorizationPolicy

variable (policy : AuthorizationPolicy)

/-- `active_bindings`. -/
def activeBindings (principal : Principal) (r : AuthorizationRequest) (stamp : Double) :
    List RoleBinding :=
  policy.bindings.filter fun b => b.principalId = principal.principalId ∧
    (b.expiresAt.stamp.truthy = false ∨ (reading stamp).lt b.expiresAt.stamp) ∧
    scopeContains b.scope r.scope

/-- The roles of some bindings, by their ids. -/
def rolesOf (bindings : List RoleBinding) : List Role :=
  ((bindings.map RoleBinding.roleId).eraseDups.insertionSort (· ≤ ·)).filterMap policy.roles.get?

/-- The evaluation in `decide`. -/
def evaluate (r : AuthorizationRequest) (stamp : Double) : Verdict :=
  match policy.principals.get? r.principalId with
  | none => ⟨false, "principal not found", [], .zero⟩
  | some principal =>
    if principal.enabled = false then ⟨false, "principal disabled", [], .zero⟩
    else if principal.expiresAt.stamp.truthy ∧ principal.expiresAt.stamp.le (reading stamp) then
      ⟨false, "principal expired", [], .zero⟩
    else
      let active := policy.activeBindings principal r stamp
      let roles := policy.rolesOf active
      let denied := roles.any fun role => role.deny.any (matchesPermission · r.permission)
      let permitted := roles.any fun role => role.allow.any (matchesPermission · r.permission)
      let expiries := (principal.expiresAt :: active.map RoleBinding.expiresAt).filter
        (·.stamp.truthy)
      let validUntil := earliest (expiries.map Deadline.float)
      if denied then ⟨false, "explicit deny", roles, validUntil⟩
      else if permitted then ⟨true, "role permission matched", roles, validUntil⟩
      else ⟨false, "no matching role permission", roles, validUntil⟩

/-- The decision that `decide` makes of a verdict, with its receipt. -/
def decision (m : Machine) (r : AuthorizationRequest) (stamp : Double) : AuthorizationDecision :=
  let v := policy.evaluate r stamp
  let kind := ((policy.principals.get? r.principalId).map (·.kind.text)).getD "unknown"
  let core := r.core ++ [("request_digest".toList, .str (m.requestDigest r)),
    ("allowed".toList, .bool v.allowed), ("reason".toList, .str v.reason.toList),
    ("matched_roles".toList, .list (v.roles.map fun role => .str role.roleId)),
    ("principal_kind".toList, .str kind.toList), ("decided_at".toList, .float (.finite stamp)),
    ("valid_until".toList, .float (.finite v.validUntil)),
    ("policy_hash".toList, .str policy.policyHash)]
  { requestId := r.requestId
    principalId := r.principalId
    permission := r.permission
    scope := r.scope
    resourceId := r.resourceId
    requestDigest := m.requestDigest r
    allowed := v.allowed
    reason := v.reason
    matchedRoles := v.roles.map Role.roleId
    principalKind := kind
    decidedAt := stamp
    validUntil := v.validUntil
    policyHash := policy.policyHash
    receiptHmac := m.hmac (record core) }

end AuthorizationPolicy

/-! ### Remembered decisions -/

/-- `_receipts`, the least recently used one first. -/
abbrev Receipts := Dict Str (Str × AuthorizationDecision)

/-- `MAX_RECEIPTS`. -/
def maxReceipts : ℕ := 10000

/-- `receipts[i] = v`, moved to the end. -/
def Receipts.append (receipts : Receipts) (i : Str) (v : Str × AuthorizationDecision) : Receipts :=
  (receipts.erase i).set i v

/-- `popitem(last=False)` until the bound holds. -/
def Receipts.trim (receipts : Receipts) : Receipts :=
  ⟨receipts.items.drop (receipts.size - maxReceipts),
    ((List.drop_sublist _ _).map Prod.fst).nodup receipts.nodup⟩

section Decide

-- the audit sink returns on a decision, or it raises
variable (m : Machine) (policy : AuthorizationPolicy) (sink : AuthorizationDecision → Bool)

/-- `decide` after its first look at the remembered decisions. -/
def decideAnew (receipts : Receipts) (r : AuthorizationRequest) (stamp : Double) :
    Except Fault AuthorizationDecision × Receipts :=
  let decision := policy.decision m r stamp
  if sink decision = false then (.error .sink, receipts)
  else
    match receipts.get? r.requestId with
    | some (digest, existing) =>
      if digest ≠ m.requestDigest r then (.error .bound, receipts) else (.ok existing, receipts)
    | none =>
      (.ok decision, (receipts.append r.requestId (m.requestDigest r, decision)).trim)

/-- `decide`. -/
def decide (receipts : Receipts) (r : AuthorizationRequest) (now : PyFloat) :
    Except Fault AuthorizationDecision × Receipts :=
  match now with
  | .finite stamp =>
    if stamp.val < 0 then (.error .time, receipts)
    else
      match receipts.get? r.requestId with
      | some (digest, existing) =>
        if digest ≠ m.requestDigest r then (.error .bound, receipts)
        else if existing.validUntil.val = 0 ∨ stamp < existing.validUntil then
          (.ok existing, receipts.append r.requestId (digest, existing))
        else decideAnew m policy sink (receipts.erase r.requestId) r stamp
      | none => decideAnew m policy sink receipts r stamp
  | _ => (.error .time, receipts)

end Decide

end Angerona.Authorization
