import Angerona.Lib.JsonText
import Angerona.Lib.SignedJson

/-!
    The durable recovery state of a supervisor, `resilience/recovery_state.py`.

    A document holds a record for each component and is signed as a whole. `update_component` stores
    what it is given under Python's conversions; the rules for times and digests are those of
    `component`, which reads a record back. -/

namespace Angerona.Recovery
open Text PyJson Raising

def schemaVersion : ℤ := 1
def maxDocumentBytes : ℕ := 256 * 1024
def maxComponents : ℕ := 32
def maxFailuresPerComponent : ℕ := 64

/-- What a call raises. -/
inductive Fault where
  /-- `RecoveryStateError`. -/
  | refused (text : String)
  | python (error : PyError)
  | json (error : JsonError)
  /-- The temporary file could not be written or put in place. -/
  | os

/-- The HMAC of a canonical text under the authority's key, as `hexdigest`. -/
structure Mac where
  tag : Json → Str
  hex : ∀ text, isHex 64 (tag text) = true

structure Store where
  python : Interpreter
  /-- `str.casefold`. -/
  casefold : Str → Str
  /-- The namespace of the supervisor. -/
  scope : Str
  /-- `none` when the key is too short. -/
  authority : Option Mac

/-- A file: its size, and the tree of its text unless it is no JSON text in UTF-8. -/
structure File where
  size : ℕ
  content : Option Json

abbrev Items := List (Key × Value)

/-! ### Names -/

def isSafe (c : Char) : Bool :=
  ('a' ≤ c ∧ c ≤ 'z') ∨ ('0' ≤ c ∧ c ≤ '9') ∨ c = '_' ∨ c = '.' ∨ c = '-'

/-- `s.strip(".-")`. -/
def stripMarks (s : Str) : Str :=
  let marks := fun c : Char => c = '.' ∨ c = '-'
  ((s.dropWhile marks).reverse.dropWhile marks).reverse

/-- A run of at least `least` of some characters becomes one dash. -/
def dashed (runs : Char → Bool) (least : ℕ) (s : Str) : Str :=
  (s.splitBy fun a b => runs a = runs b).flatMap fun run =>
    if run.all runs ∧ least ≤ run.length then ['-'] else run

/-- `safe_name`. -/
def Store.safeName (S : Store) (value : Str) : Str :=
  let normalized := stripMarks (dashed (fun c => !isSafe c) 1 (S.casefold (strip value)))
  let normalized := dashed (fun c => c = '.') 2 normalized
  let normalized := stripMarks (dashed (fun c => c = '-') 2 normalized)
  (if normalized = [] then "supervisor".toList else normalized).take 48

/-! ### Loading -/

/-- `value == 1`. -/
def equalsOne : Value → Bool
  | .int n => n = 1
  | .bool b => b
  | .float (.finite d) => d.val = 2 ^ Double.unitExponent
  | _ => false

/-- `str(value or default)`. -/
def Store.textOr (S : Store) (default : Str) (value : Value) : Str :=
  if truthy value then S.python.str value else default

/-- The items of a value that was found to be a dictionary. -/
def itemsOf : Value → Items
  | .dict items => items
  | _ => []

def signatureName : Str := "hmac_sha256".toList

def componentsName : Str := "components".toList

/-- `_canonical`. -/
def Store.canonical (S : Store) (document : Items) : Except Fault Json :=
  ((Value.dict (without signatureName document)).dumps S.python.repr true).mapError .json

/-- `_empty`. -/
def Store.empty (S : Store) (clock : Double) : Items :=
  [(.str "schema_version".toList, .int schemaVersion), (.str "namespace".toList, .str S.scope),
    (.str "updated_at".toList, .float (.finite clock)), (.str componentsName, .dict [])]

/-- `_authority`. -/
def Store.key (S : Store) : Except Fault Mac :=
  S.authority.elim (.error (.refused "recovery-state authority is too short")) .ok

/-- The checks of `load` on a document. -/
def Store.verify (S : Store) (document : Items) : Except Fault Unit :=
  if equalsOne (getItem "schema_version".toList document) = false then
    .error (.refused "unsupported recovery-state schema")
  else if (getItem "namespace".toList document).text? ≠ some S.scope then
    .error (.refused "recovery-state namespace mismatch")
  else do
    let signature := S.textOr [] (getItem signatureName document)
    let mac ← S.key
    let expected ← S.canonical document
    -- `compare_digest` takes texts in ASCII only
    if signature.any (fun c => 128 ≤ c.toNat) then .error (.python .type)
    else if signature ≠ mac.tag expected then
      .error (.refused "recovery-state authentication failed")
    else
      match getItem componentsName document with
      | .dict components =>
        if maxComponents < components.length then
          .error (.refused "invalid recovery-state component map")
        else .ok ()
      | _ => .error (.refused "invalid recovery-state component map")

/-- `load`. -/
def Store.load (S : Store) (clock : Double) : Option File → Except Fault Items
  | none => .ok (S.empty clock)
  | some file =>
    if maxDocumentBytes < file.size then
      .error (.refused "recovery state exceeds its size limit")
    else
      match (file.content.filter Json.written).map Json.loads with
      | none => .error (.refused "recovery state is unreadable")
      | some (.dict document) => (S.verify document).map fun _ => document
      | some _ => .error (.refused "recovery state is not an object")

/-- `load()["components"]`. -/
def Store.components (S : Store) (clock : Double) (file : Option File) : Except Fault Items :=
  (S.load clock file).map fun document => itemsOf (getItem componentsName document)

/-! ### Components -/

/-- The record of a component. -/
structure Component where
  failures : List PyFloat
  safeMode : Bool
  safeModeSince : PyFloat
  nextRestartAt : PyFloat
  lastState : Str
  lastDiagnosticSha256 : Str
  stateFault : Bool

def zero : PyFloat := .finite Double.zero

theorem week_fits : 7 * 24 * 3600 ≤ 2 ^ 53 := by decide

/-- `float(clock()) + 7 * 24 * 3600`. -/
def horizon (clock : Double) : PyFloat :=
  (clock.add (Double.ofNat (7 * 24 * 3600) week_fits)).elim (.inf false) .finite

/-- `_finite_timestamp`. -/
def Store.finiteTimestamp (S : Store) (maximum : PyFloat) (value : Value) : Except Fault PyFloat := do
  let parsed ← (S.python.float (if truthy value then value else .float zero)).mapError .python
  if parsed.isFinite = false ∨ parsed.lt zero ∨ maximum.lt parsed then
    .error (.refused "recovery state contains an invalid timestamp")
  else .ok parsed

/-- What `component` makes of a stored record. -/
def Store.read (S : Store) (clock : Double) (record : Items) : Except Fault Component :=
  match getOr "failures".toList (.list []) record with
  | .list failures =>
    if maxFailuresPerComponent < failures.length then
      .error (.refused "invalid recovery failure history")
    else do
      let cleanedFailures ← failures.mapM (S.finiteTimestamp (horizon clock))
      let digest := S.textOr [] (getItem "last_diagnostic_sha256".toList record)
      if digest ≠ [] ∧ isHex 64 digest = false then
        .error (.refused "invalid recovery diagnostic digest")
      else do
        let safeModeSince ← S.finiteTimestamp (horizon clock)
          (getOr "safe_mode_since".toList (.float zero) record)
        let nextRestartAt ← S.finiteTimestamp (horizon clock)
          (getOr "next_restart_at".toList (.float zero) record)
        .ok {
          failures := cleanedFailures
          safeMode := truthy (getOr "safe_mode".toList (.bool false) record)
          safeModeSince := safeModeSince
          nextRestartAt := nextRestartAt
          lastState := (S.textOr "unknown".toList (getItem "last_state".toList record)).take 24
          lastDiagnosticSha256 := digest
          stateFault := truthy (getOr "state_fault".toList (.bool false) record) }
  | _ => .error (.refused "invalid recovery failure history")

/-- `component`. -/
def Store.component (S : Store) (clock : Double) (file : Option File) (name : Str) :
    Except Fault Component := do
  let components ← S.components clock file
  match (lookup (S.safeName name) components).getD (.dict []) with
  | .dict record => S.read clock record
  | _ => .error (.refused "invalid component recovery record")

/-! ### Updates -/

/-- A dictionary's key as a value. -/
def keyValue : Key → Value
  | .str s => .str s
  | .int n => .int n
  | .bool b => .bool b
  | .float f => .float f
  | .none => .null
  | .other => .other []

/-- `list(value)`. -/
def listOf : Value → Except PyError (List Value)
  | .list xs => .ok xs
  | .str s => .ok (s.map fun c => .str [c])
  | .dict items => .ok (items.map fun item => keyValue item.1)
  | _ => .error .type

/-- `xs[-64:]`. -/
def newest (xs : List Value) : List Value := xs.drop (xs.length - 64)

/-- The record that is stored for the one that is given. -/
def Store.normalised (S : Store) (record : Items) : Except PyError Component := do
  let failures ← listOf (getOr "failures".toList (.list []) record)
  let failures ← (newest failures).mapM S.python.float
  let safeModeSince ← S.python.float (getOr "safe_mode_since".toList (.float zero) record)
  let nextRestartAt ← S.python.float (getOr "next_restart_at".toList (.float zero) record)
  .ok {
    failures := failures
    safeMode := truthy (getOr "safe_mode".toList (.bool false) record)
    safeModeSince := safeModeSince
    nextRestartAt := nextRestartAt
    lastState := (S.textOr "unknown".toList (getItem "last_state".toList record)).take 24
    lastDiagnosticSha256 := S.textOr [] (getItem "last_diagnostic_sha256".toList record)
    stateFault := truthy (getOr "state_fault".toList (.bool false) record) }

def Component.fields (c : Component) : List (Str × Value) :=
  [("failures".toList, .list (c.failures.map .float)), ("safe_mode".toList, .bool c.safeMode),
    ("safe_mode_since".toList, .float c.safeModeSince),
    ("next_restart_at".toList, .float c.nextRestartAt), ("last_state".toList, .str c.lastState),
    ("last_diagnostic_sha256".toList, .str c.lastDiagnosticSha256),
    ("state_fault".toList, .bool c.stateFault)]

/-- The text that `update_component` writes. -/
def Store.encode (S : Store) (clock : Double) (file : Option File) (name : Str) (record : Items) :
    Except Fault Json := do
  let document ← S.load clock file
  let components := itemsOf (getItem componentsName document)
  if (lookup (S.safeName name) components).isNone ∧ maxComponents ≤ components.length then
    .error (.refused "recovery-state component limit reached")
  else do
    let entry ← (S.normalised record).mapError .python
    let components := setItem (.str (S.safeName name)) (PyJson.record entry.fields) components
    let document := setItem (.str "updated_at".toList) (.float (.finite clock))
      (setItem (.str componentsName) (.dict components) document)
    let mac ← S.key
    let text ← S.canonical document
    let document := setItem (.str signatureName) (.str (mac.tag text)) document
    let encoded ← ((Value.dict document).dumps S.python.repr true).mapError .json
    if maxDocumentBytes < encoded.length S.python.repr 0 then
      .error (.refused "recovery state exceeds its size limit")
    else .ok encoded

end Angerona.Recovery
