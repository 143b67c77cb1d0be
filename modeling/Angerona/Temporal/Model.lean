import Mathlib.Data.Finset.Sort
import Angerona.Lib.History
import Angerona.Lib.PyJson

/-!
    The temporal tradecraft engine.

    The engine keeps a window of attested signals, the identities of the patterns it has reported,
    and what it knows about gaps in its evidence. Every change is saved as one JSON document under
    an HMAC, and a new engine admits that document or starts untrusted. A JSON text is its syntax
    tree; a digest or a tag is a function of the text it is computed over. -/

namespace Angerona.Temporal
open Text PyJson Raising

/-! ### Signals -/

inductive Kind where
  | sshKeyChange
  | sshSession
  | sshTunnel
  | networkPathChange
  | logClear
  deriving DecidableEq

/-- `_KINDS`. -/
def Kind.all : List Kind := [.sshKeyChange, .sshSession, .sshTunnel, .networkPathChange, .logClear]

def Kind.text : Kind → Str
  | .sshKeyChange => "ssh_key_change".toList
  | .sshSession => "ssh_session".toList
  | .sshTunnel => "ssh_tunnel".toList
  | .networkPathChange => "network_path_change".toList
  | .logClear => "log_clear".toList

inductive Grade where
  | brokerProvenanced
  | schemaAdmittedLocal
  | unprovenanced
  | authenticatedBus
  | localUnarmed
  deriving DecidableEq

/-- `_EVIDENCE_GRADES`. -/
def Grade.all : List Grade :=
  [.brokerProvenanced, .schemaAdmittedLocal, .unprovenanced, .authenticatedBus, .localUnarmed]

def Grade.text : Grade → Str
  | .brokerProvenanced => "broker-provenanced".toList
  | .schemaAdmittedLocal => "schema-admitted-local".toList
  | .unprovenanced => "unprovenanced".toList
  | .authenticatedBus => "authenticated-bus".toList
  | .localUnarmed => "local-unarmed".toList

structure Pattern where
  patternId : Str
  steps : List Kind
  severity : Str
  summary : Str

/-- `PATTERNS`. -/
def patterns : List Pattern :=
  [⟨"temporal.ssh_key_session_tunnel".toList, [.sshKeyChange, .sshSession, .sshTunnel],
      "High".toList,
      "SSH key drift was followed by a valid session and tunnel behavior.".toList⟩,
    ⟨"temporal.ssh_session_path_log_clear".toList, [.sshSession, .networkPathChange, .logClear],
      "Critical".toList,
      "An SSH session preceded first-hop path drift and audit-log clearing.".toList⟩,
    ⟨"temporal.ssh_key_session_tunnel_path_log_clear".toList,
      [.sshKeyChange, .sshSession, .sshTunnel, .networkPathChange, .logClear], "Critical".toList,
      "SSH persistence, access, tunneling, path drift, and log clearing formed an ordered campaign.".toList⟩]

structure Signal where
  kind : Kind
  observedAt : PyFloat
  evidenceDigest : Str
  sourceToken : Str
  evidenceGrade : Grade
  attestation : Str
  deriving DecidableEq

/-! ### Text formats -/

def isLetter (c : Char) : Bool := 'a' ≤ c ∧ c ≤ 'z'

def isPrefixTail (c : Char) : Bool := isLetter c ∨ ('0' ≤ c ∧ c ≤ '9') ∨ c = '_' ∨ c = '-'

/-- `_TOKEN.fullmatch`: a prefix of at most 16 characters, a version, 32 hexadecimal digits. -/
def isToken (s : Str) : Bool :=
  match s.takeWhile (· ≠ ':') with
  | [] => false
  | c :: cs =>
    isLetter c ∧ cs.all isPrefixTail ∧ cs.length ≤ 15 ∧
      (s.dropWhile (· ≠ ':')).take 4 = ":v1:".toList ∧ isHex 32 ((s.dropWhile (· ≠ ':')).drop 4)

/-! ### Configuration -/

def maxStateBytes : ℕ := 256 * 1024
def maxMatches : ℕ := 128
def maxReasons : ℕ := 16
def maxWindowSeconds : ℕ := 6 * 60 * 60
def maxEventSkewSeconds : ℕ := 5 * 60
def schema : Str := "angerona.temporal-tradecraft.v1".toList

/-- The keys, window and limit of an engine. The keyed functions are applied to the texts under
    their namespaces and give hexadecimal digits. -/
structure Config where
  windowSeconds : ℕ
  window_le : windowSeconds ≤ maxWindowSeconds
  signalLimit : ℕ
  /-- `float.__repr__`. -/
  repr : Double → Str
  /-- `str`. -/
  str : Value → Str
  /-- The number of UTF-8 bytes of a canonical text. -/
  bytes : Json → ℕ
  /-- The tag of a signal under the state key. -/
  attest : Json → Str
  attest_hex : ∀ text, isHex 64 (attest text) = true
  /-- The tag of a document under the state key. -/
  sign : Json → Str
  sign_hex : ∀ text, isHex 64 (sign text) = true
  /-- `_digest` under the privacy key. -/
  digest : Json → Str
  digest_hex : ∀ text, isHex 64 (digest text) = true
  /-- The digits of `_token` under the privacy key: of a namespace and a text. -/
  tokenDigits : Str → Str → Str
  tokenDigits_hex : ∀ ns text, isHex 32 (tokenDigits ns text) = true

/-- `_token`. -/
def Config.token (C : Config) (ns text start : Str) : Str :=
  start ++ ":v1:".toList ++ C.tokenDigits ns text

/-- `TemporalTradecraftError`. -/
structure Rejected where
  message : String

def canonicalError : Rejected := ⟨"temporal state is not canonical JSON"⟩

section Engine

variable (C : Config)

/-- `_canonical`. -/
def canonical (v : Value) : Except Rejected Json :=
  match v.dumps C.repr true with
  | .ok j => .ok j
  | .error _ => .error canonicalError

/-- `_signal_payload`. -/
def Signal.payload (s : Signal) : List (Str × Value) :=
  [("kind".toList, .str s.kind.text), ("observed_at".toList, .float s.observedAt),
    ("evidence_digest".toList, .str s.evidenceDigest),
    ("source_token".toList, .str s.sourceToken),
    ("evidence_grade".toList, .str s.evidenceGrade.text)]

/-- `as_dict`. -/
def Signal.asDict (s : Signal) : List (Str × Value) :=
  s.payload ++ [("attestation".toList, .str s.attestation)]

/-- `_attest_signal`: only finite numbers are canonical. -/
def attestSignal (s : Signal) : Except Rejected Str :=
  match s.observedAt with
  | .finite _ => (canonical C (record s.payload)).map C.attest
  | _ => .error canonicalError

/-! ### State -/

inductive Status where
  | missing
  | authenticated
  | untrusted
  | unavailable
  deriving DecidableEq

structure Engine where
  signals : List Signal
  matched : List Str
  revision : ℕ
  missingSince : Option Double
  missingReasons : List Str
  blindSources : Finset Str
  overflowAt : Option Double
  dropped : ℕ
  persistenceStatus : Status
  persistenceLocked : Bool

/-- The sensor token of the state store. -/
def stateStore : Str := C.token "temporal-blind".toList "state-store".toList "sensor".toList

/-- A new engine before it loads. -/
def Engine.empty : Engine := ⟨[], [], 0, none, [], ∅, none, 0, .missing, false⟩

/-- `_load` without a state file. -/
def Engine.fresh (now : Double) : Engine :=
  { Engine.empty with
    missingSince := some now
    missingReasons := ["no-authenticated-restart-history".toList] }

/-- What a failed read or write of the state leaves. -/
def Engine.lock (status : Status) (e : Engine) : Engine :=
  { e with
    persistenceStatus := status
    persistenceLocked := true
    blindSources := insert (stateStore C) e.blindSources }

/-! ### Time -/

/-- `a + n` for a finite `a`. -/
def plus (a : Double) (n : ℕ) (h : n ≤ 2 ^ 53) : PyFloat :=
  match a.add (.ofNat n h) with
  | some b => .finite b
  | none => .inf false

/-- `a - n` for a finite `a`. -/
def minus (a : Double) (n : ℕ) (h : n ≤ 2 ^ 53) : PyFloat :=
  match a.add { Double.ofNat n h with neg := true } with
  | some b => .finite b
  | none => .inf true

/-- `a < b`. -/
def before (a b : PyFloat) : Bool := a.num.lt b.num

/-- `now - self.window_seconds`. -/
def cutoff (now : Double) : PyFloat :=
  minus now C.windowSeconds (C.window_le.trans (by decide))

/-- `_prune`. -/
def Engine.prune (now : Double) (e : Engine) : Engine :=
  let e := { e with signals := e.signals.dropWhile fun s => before s.observedAt (cutoff C now) }
  let e := match e.overflowAt with
    | some t => if before (.finite t) (cutoff C now) then { e with overflowAt := none } else e
    | none => e
  match e.missingSince with
  | some t =>
    if before (.finite t) (cutoff C now) then
      { e with missingSince := none, missingReasons := [] }
    else e
  | none => e

/-- The stamp is too far from the clock. -/
def stale (now : Double) (stamp : PyFloat) : Bool :=
  before (plus now maxEventSkewSeconds (by decide)) stamp ∨
    before stamp (minus now maxWindowSeconds (by decide))

/-! ### Saving -/

def optional : Option Double → Value
  | none => .null
  | some d => .float (.finite d)

/-- The continuity part of a document. -/
def Engine.continuity (e : Engine) : List (Str × Value) :=
  [("missing_since".toList, optional e.missingSince),
    ("missing_reasons".toList, .list (e.missingReasons.map .str)),
    ("blind_sources".toList, .list (e.blindSources.sort.map .str)),
    ("overflow_at".toList, optional e.overflowAt),
    ("dropped".toList, .int e.dropped)]

/-- `_document`. -/
def Engine.document (e : Engine) : List (Str × Value) :=
  [("schema".toList, .str schema), ("revision".toList, .int e.revision),
    ("window_seconds".toList, .int C.windowSeconds),
    ("signals".toList, .list (e.signals.map fun s => record s.asDict)),
    ("matches".toList, .list (e.matched.map .str)),
    ("continuity".toList, record e.continuity)]

/-- The text `_save` writes. -/
def Engine.envelope (e : Engine) : Except Rejected Json := do
  let text ← canonical C (record (e.document C))
  canonical C (record [("document".toList, record (e.document C)),
    ("hmac_sha256".toList, .str (C.sign text))])

/-- An engine and its state file. -/
structure World where
  engine : Engine
  file : Option Json
  /-- The engine at its last successful `_save`. -/
  saved : Option Engine

/-- `_save`; the write may fail. -/
def World.save (fails : Bool) (w : World) : Except Rejected Unit × World :=
  if w.engine.persistenceLocked then (.ok (), w)
  else
    let e := { w.engine with revision := w.engine.revision + 1 }
    match e.envelope C with
    | .error r => (.error r, { w with engine := e })
    | .ok text =>
      if fails ∨ maxStateBytes < C.bytes text then
        (.ok (), { w with engine := e.lock C .unavailable })
      else
        let e := { e with persistenceStatus := .authenticated }
        (.ok (), ⟨e, some text, some e⟩)

/-! ### Loading -/

/-- The strings of a list of strings. -/
def texts : Value → Option (List Str)
  | .list xs => xs.mapM fun
    | .str s => some s
    | _ => none
  | _ => none

/-- A number, as a float; an integer is rounded. -/
def number : Value → Option PyFloat
  | .float f => some f
  | .int n => (Double.ofInt n).map .finite
  | _ => none

/-- A time or None. -/
def optionalTime : Value → Option (Option Double)
  | .null => some none
  | v => match number v with
    | some (.finite d) => some (some d)
    | _ => none

def natural : Value → Option ℕ
  | .int n => if 0 ≤ n then some n.toNat else none
  | _ => none

/-- `frozenset(d) == names`. -/
def hasFields (names : List String) (d : List (Key × Value)) : Bool :=
  (d.map Prod.fst).Perm (names.map fun n => Key.str n.toList)

/-- `str(value)`. -/
def textOf : Value → Str
  | .str s => s
  | v => C.str v

/-- One row of the signals. -/
def admitSignal (row : Value) : Option Signal :=
  match row with
  | .dict d =>
    if ¬hasFields ["kind", "observed_at", "evidence_digest", "source_token", "evidence_grade",
        "attestation"] d then none
    else
      match getItem "kind".toList d, number (getItem "observed_at".toList d),
          getItem "evidence_grade".toList d with
      | .str kind, some (.finite observedAt), .str grade =>
        match Kind.all.find? (·.text = kind), Grade.all.find? (·.text = grade) with
        | some kind, some grade =>
          let s : Signal := ⟨kind, .finite observedAt, textOf C (getItem "evidence_digest".toList d),
            textOf C (getItem "source_token".toList d), grade,
            textOf C (getItem "attestation".toList d)⟩
          if isHex 64 s.evidenceDigest ∧ isToken s.sourceToken ∧ isHex 64 s.attestation ∧
              (attestSignal C s).toOption = some s.attestation then some s
          else none
        | _, _ => none
      | _, _, _ => none
  | _ => none

/-- The rows in turn, none before the one it follows. -/
def admitSignals (prior : PyFloat) : List Value → Option (List Signal)
  | [] => some []
  | row :: rows => do
    let s ← admitSignal C row
    if before s.observedAt prior then none
    else
      let rest ← admitSignals s.observedAt rows
      return s :: rest

/-- `_admit_document`; none when it raises. -/
def admitDocument (document : List (Key × Value)) : Option Engine :=
  if ¬hasFields ["schema", "revision", "window_seconds", "signals", "matches", "continuity"] document then
    none
  else
    match getItem "schema".toList document, natural (getItem "revision".toList document),
        natural (getItem "window_seconds".toList document), getItem "signals".toList document,
        texts (getItem "matches".toList document), getItem "continuity".toList document with
    | .str s, some revision, some window, .list rows, some matched, .dict continuity =>
      if s ≠ schema ∨ window ≠ C.windowSeconds ∨ C.signalLimit < rows.length ∨
          maxMatches < matched.length ∨
          ¬hasFields ["missing_since", "missing_reasons", "blind_sources", "overflow_at", "dropped"]
            continuity then none
      else
        match admitSignals C (.inf true) rows,
            optionalTime (getItem "missing_since".toList continuity),
            texts (getItem "missing_reasons".toList continuity),
            texts (getItem "blind_sources".toList continuity),
            optionalTime (getItem "overflow_at".toList continuity),
            natural (getItem "dropped".toList continuity) with
        | some signals, some missingSince, some reasons, some blind, some overflowAt, some dropped =>
          if matched.any (fun m => 160 < m.length) ∨ maxReasons < reasons.length ∨
              reasons.any (fun r => r = [] ∨ 96 < r.length) ∨ maxReasons < blind.length ∨
              blind.any (fun t => !isToken t) then none
          else some
            { signals, matched, revision, missingSince, missingReasons := reasons,
              blindSources := blind.toFinset, overflowAt, dropped,
              persistenceStatus := .authenticated, persistenceLocked := false }
        | _, _, _, _, _, _ => none
    | _, _, _, _, _, _ => none

/-- `_load` of a state file. -/
def load (now : Double) (text : Json) : Engine :=
  let untrusted := Engine.empty.lock C .untrusted
  if maxStateBytes < C.bytes text then untrusted
  else
    match text.loads with
    | .dict envelope =>
      if ¬hasFields ["document", "hmac_sha256"] envelope then untrusted
      else
        match getItem "document".toList envelope, getItem "hmac_sha256".toList envelope with
        | .dict document, .str signature =>
          match canonical C (.dict document) with
          | .error _ => untrusted
          | .ok text =>
            if ¬isHex 64 signature ∨ signature ≠ C.sign text then untrusted
            else
              match admitDocument C document with
              | none => untrusted
              | some e => e.prune C now
        | _, _ => untrusted
    | _ => untrusted

end Engine

end Angerona.Temporal
