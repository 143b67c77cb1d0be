import Angerona.Lib.PyNumber

/-!
    The two signed command formats of the resilience layer (`resilience/shutdown_token.py`,
    `resilience/supervisor.py`): `standdown.cmd` and the `restart*.cmd` inboxes.

    Both authenticate the text `nonce NUL ts NUL rest` with the one shutdown key: `rest` is the
    reason of a stand-down, or the comma-joined targets of a restart.

    A file is its size and the value `json.loads` gives for it. A lone surrogate never passes
    `encode("utf-8")`, so a text is a list of characters. -/

namespace Angerona.Shutdown
open Text PyJson

/-! ### What is signed -/

structure Host extends Interpreter where
  /-- `str.lower`. -/
  lower : Str → Str
  /-- `hmac.new(_load_key(), text.encode("utf-8"), sha256).hexdigest()`. -/
  mac : Str → Str
  mac_hex : ∀ text, isHex 64 (mac text) = true

def nul : Char := Char.ofNat 0

/-- `f"{nonce}\x00{ts}\x00{rest}"`. -/
def payload (nonce : Str) (ts : ℤ) (rest : Str) : Str :=
  nonce ++ nul :: (intText ts ++ nul :: rest)

/-- A nonce of `secrets.token_hex(16)` and a reading of `time.time()`. -/
structure Draw where
  nonce : Str
  hex : isHex 32 nonce = true
  time : Double

/-- What one signature covers; the signed time is whole. -/
structure Signed where
  nonce : Str
  time : Double
  text : Str

def Signed.payload (s : Signed) : Str := Shutdown.payload s.nonce s.time.trunc s.text

structure File where
  size : ℕ
  document : Option Value

variable (h : Host)

/-- The file of `json.dumps(command)`, with `gap` blanks after a separator. -/
def Host.encode (gap : ℕ) (command : List (Str × Value)) : Except PyError File :=
  match (record command).dumps h.repr false with
  | .ok j => .ok ⟨j.length h.repr gap, some j.loads⟩
  | .error _ => .error .value

/-! ### Requests -/

/-- `_OPERATOR_STOP_PREFIX`. -/
def operatorStopPrefix : Str := "operator-stop: ".toList

def reasonOk (reason : Str) : Bool :=
  reason ≠ [] ∧ reason.length ≤ 256 ∧ reason.all fun c => 32 ≤ c.toNat

/-- The command of `request_standdown`. -/
def Host.standdownCommand (reason : Str) (draw : Draw) : Except PyError (Signed × File) :=
  let signed : Signed := ⟨draw.nonce, draw.time, strip reason⟩
  if reasonOk signed.text then do
    let file ← h.encode 0 [("nonce".toList, .str signed.nonce),
      ("ts".toList, .float (.finite signed.time)), ("reason".toList, .str signed.text),
      ("sig".toList, .str (h.mac signed.payload))]
    -- the bound of `_atomic_command`
    if 4096 < file.size then .error .value else .ok (signed, file)
  else .error .value

/-- `_VALID_RESTART_TARGETS`. -/
def validRestartTargets : List Str :=
  ["core", "scanner", "blackbox", "watchdog", "watchdog_ui", "scanner_ui", "*"].map String.toList

def star : Str := ['*']

/-- The targets `request_restart` signs for, one command each. -/
def Host.restartTargets (names : List Str) : List Str :=
  let names := if names = [] then [star] else names
  let requested := (names.map fun n => h.lower (strip n)).filter (· ∈ validRestartTargets)
  if requested = [] ∨ star ∈ requested then [star] else requested

/-- One command of `request_restart`. -/
def Host.restartCommand (target : Str) (draw : Draw) : Except PyError (Signed × File) := do
  let signed : Signed := ⟨draw.nonce, draw.time, target⟩
  let file ← h.encode 1 [("nonce".toList, .str signed.nonce), ("ts".toList, .int signed.time.trunc),
    ("targets".toList, .list ([target].map .str)), ("sig".toList, .str (h.mac signed.payload))]
  .ok (signed, file)

/-- A command file of the `ipc` directory; `restart none` is `restart.cmd`. -/
inductive Path where
  | standdown
  | restart (component : Option Str)
  deriving DecidableEq

structure Published where
  path : Path
  signed : Signed
  file : File

/-- The commands written before the first failure. -/
def publishAll : List (Except PyError Published) → List Published
  | .ok p :: rest => p :: publishAll rest
  | _ => []

inductive Call where
  /-- A call that fails at a file has no draw for it and those after it. -/
  | requestRestart (names : List Str) (draws : List Draw)
  | requestStanddown (reason : Str) (draw : Draw)
  | requestOperatorStop (reason : Str) (draw : Draw)

def Host.standdownPublished (reason : Str) (draw : Draw) : Except PyError Published :=
  (h.standdownCommand reason draw).map fun p => ⟨.standdown, p.1, p.2⟩

def Host.restartPublished (target : Str) (draw : Draw) : Except PyError Published :=
  (h.restartCommand target draw).map fun p =>
    ⟨.restart (if target = star then none else some target), p.1, p.2⟩

/-- The commands that a call publishes. -/
def Call.published : Call → List Published
  | .requestRestart names draws =>
    publishAll (((h.restartTargets names).zip draws).map fun p => h.restartPublished p.1 p.2)
  | .requestStanddown reason draw => publishAll [h.standdownPublished reason draw]
  | .requestOperatorStop reason draw =>
    publishAll [h.standdownPublished (operatorStopPrefix ++ reason) draw]

/-! ### Readers -/

/-- The fields that a reader authenticates. -/
structure Command where
  nonce : Str
  ts : ℤ
  text : Str
  sig : Str

def Command.payload (c : Command) : Str := Shutdown.payload c.nonce c.ts c.text

/-- `hmac.compare_digest(expected, sig)`. -/
def Command.genuine (c : Command) : Bool := h.mac c.payload = c.sig

/-- `str(cmd.get(name, ""))`. -/
def Host.textField (name : String) (cmd : List (Key × Value)) : Str :=
  h.str (getOr name.toList (.str []) cmd)

/-- The checks of `_verify_standdown_bytes` up to the form of the fields; `none` is `False`. -/
def Host.standdownOf (f : File) : Except PyError (Option (Double × Command)) :=
  if 4096 < f.size then .ok none
  else match f.document with
    | some (.dict cmd) =>
      match h.float (getOr "ts".toList (.int 0) cmd) with
      | .error .overflow => .error .overflow
      | .ok (.finite ts) =>
        let c : Command := ⟨h.textField "nonce" cmd, ts.trunc, h.textField "reason" cmd,
          h.textField "sig" cmd⟩
        .ok (if isHex 32 c.nonce ∧ isHex 64 c.sig ∧ reasonOk c.text then some (ts, c) else none)
      | _ => .ok none
    | _ => .ok none

def seconds (n : ℕ) (h : n ≤ 2 ^ 53) : PyFloat := .finite (Double.ofNat n h)

/-- A command within the future skew of 30 seconds and, but for an operator stop, an hour old. -/
def freshStop (now ts : Double) (reason : Str) : Bool :=
  let age := PyFloat.sub now ts
  !age.lt (.finite (Double.ofNat 30 (by decide)).opposite) && decide (0 < ts.val) &&
    (operatorStopPrefix.isPrefixOf reason || !(seconds 3600 Double.hour_fits).lt age)

/-- `_verify_standdown_bytes`, with the ages of `is_standdown_requested`. -/
def Host.verifyStanddown (now : Double) (f : File) : Except PyError Bool :=
  (h.standdownOf f).map fun
    | some (ts, c) => freshStop now ts c.text && c.genuine h
    | none => false

/-- What `_pop_restart_requests` reads from a file, with the targets' texts. -/
def Host.restartOf (f : File) : Option (Command × List Str) :=
  match f.document with
  | some (.dict cmd) =>
    match h.int (getOr "ts".toList (.int 0) cmd), getOr "targets".toList (.list []) cmd with
    | .ok ts, .list targets =>
      let names := targets.map h.str
      some (⟨h.textField "nonce" cmd, ts, join [','] names, h.textField "sig" cmd⟩, names)
    | _, _ => none
  | _ => none

/-- A restart is at most 30 seconds old; a time out of range raises. -/
def freshRestart (now : Double) (ts : ℤ) : Bool :=
  (Double.ofInt ts).elim false fun t => !(seconds 30 (by decide)).lt (PyFloat.sub now t)

/-- The names that one file forces. -/
def Host.restartNames (components : List Str) (now : Double) (f : File) : List Str :=
  match h.restartOf f with
  | some (c, names) =>
    if freshRestart now c.ts && c.genuine h then
      (names.map strip).filter fun n => n = star ∨ n ∈ components
    else []
  | none => []

end Angerona.Shutdown
