import Angerona.Lib.LoadedJson

/-!
    The independent watcher of the spyware beacon, `_consume_watch_messages`.

    What the loop asks (the queue, the three probes, the clock) is answered by a world that may
    answer anything, with all that was asked before in view. A log holds every call with its
    answer, the latest one first. -/

namespace Angerona.Beacon
open Text PyJson PyStr LoadedJson

/-! ### Messages -/

inductive MessageKind where
  | heartbeat
  | stop
  deriving DecidableEq

def MessageKind.text : MessageKind → Str
  | .heartbeat => "heartbeat".toList
  | .stop => "stop".toList

/-- What an accepted body says, besides the run. -/
structure Body where
  seq : ℤ
  kind : MessageKind
  deriving DecidableEq

/-- `body.get("kind") in {"heartbeat", "stop"}`; a value without a hash raises, and is refused. -/
def kindOf (value : Loaded) : Option MessageKind :=
  if strOf value = some (ofStr MessageKind.heartbeat.text) then some .heartbeat
  else if strOf value = some (ofStr MessageKind.stop.text) then some .stop
  else none

def envelopeFields : List PyStr := ["body", "mac"].map fun f : String => ofStr f.toList

def bodyFields : List PyStr := ["run", "seq", "kind"].map fun f : String => ofStr f.toList

/-- The body that `_canonical` writes. -/
def bodyValue (run : Str) (b : Body) : Value :=
  record [("run".toList, .str run), ("seq".toList, .int b.seq), ("kind".toList, .str b.kind.text)]

section Verify

-- the HMAC under the key of this run, in hexadecimal digits, and `repr` of a float
variable (hmac : Json → Str) (repr : Double → Str) (run : Str)

/-- `_wrap(body, key)["mac"]`, unless the body cannot be written. -/
def wrap (b : Body) : Option Str := ((bodyValue run b).dumps repr true).toOption.map hmac

/-- `_verify`. -/
def verify (message : Loaded) (previous : ℤ) : Option Body := do
  let items ← dictOf message
  guard (hasFields items envelopeFields)
  let body ← dictOf (getField items "body" .null)
  guard (hasFields body bodyFields)
  guard (strOf (getField body "run" .null) = some (ofStr run))
  let seq ← intOf (getField body "seq" .null)
  guard (previous < seq)
  let kind ← kindOf (getField body "kind" .null)
  let mac ← strOf (getField items "mac" .null)
  guard (mac.length = 64)
  let expected ← wrap hmac repr run ⟨seq, kind⟩
  guard (mac = ofStr expected)
  return ⟨seq, kind⟩

/-- A message of this run under its key, with the body. -/
structure Authentic (message : Loaded) (b : Body) : Prop where
  envelope : ∃ items body, message = .dict items ∧ hasFields items envelopeFields = true ∧
    getField items "body" .null = .dict body ∧ hasFields body bodyFields = true ∧
    getField body "run" .null = .str (ofStr run) ∧ getField body "seq" .null = .int b.seq ∧
    getField body "kind" .null = .str (ofStr b.kind.text) ∧
    ∃ mac, wrap hmac repr run b = some mac ∧ getField items "mac" .null = .str (ofStr mac) ∧
      (ofStr mac).length = 64

end Verify

/-! ### The world -/

/-- What is put on the queue; `invalid` is a frame that is no message. -/
inductive Item where
  | message (m : Loaded)
  | eof
  | invalid

/-- `_identity_state`. -/
inductive Identity where
  | alive
  | gone
  | reused
  | unknown
  deriving DecidableEq

/-- How the watch ends. -/
inductive Reason where
  | invalidState
  | normalStop
  | authorizationRevoked
  | identityUnverifiable
  | unauthenticatedState
  | engineExit
  | heartbeatLost
  deriving DecidableEq

def Reason.text : Reason → String
  | .invalidState => "invalid_state"
  | .normalStop => "normal_stop"
  | .authorizationRevoked => "authorization_revoked"
  | .identityUnverifiable => "identity_unverifiable"
  | .unauthenticatedState => "unauthenticated_state"
  | .engineExit => "SPYWARE_ENGINE_EXIT"
  | .heartbeatLost => "SPYWARE_HEARTBEAT_LOST"

/-- The two reasons that are sent. -/
def Reason.emergency : Reason → Bool
  | .engineExit => true
  | .heartbeatLost => true
  | _ => false

structure Incident where
  ruleCode : String
  severity : String
  pid : ℤ
  deriving DecidableEq

/-- A call of the loop with its answer. -/
inductive Event (T : Type) where
  | fault (isSet : Bool)
  | clock (now : T)
  | got (wait : T) (item : Option Item)
  | verified (body : Option Body)
  | ready
  | authority (ok : Bool)
  | identity (state : Identity)
  | destination (ok : Bool)
  /-- `sender(incident)`. -/
  | sender (incident : Incident)
  /-- The three calls of an `EmergencyBeacon`, where there is no sender. -/
  | beacon (incident : Incident)

abbrev Log (T : Type) := List (Event T)

/-- The answers, each after all the calls before it. -/
structure World (T : Type) where
  fault : Log T → Bool
  clock : Log T → T
  -- nothing when the wait ends first
  item : Log T → T → Option Item
  authority : Log T → Bool
  identity : Log T → Identity
  destination : Log T → Bool

/-! ### The loop -/

/-- The local variables. -/
structure Loop (T : Type) where
  lastSeen : T
  previous : ℤ
  authenticated : Bool
  eofAt : Option T
  /-- `on_ready` is still to be called. -/
  onReady : Bool

/-- The arguments that do not change. -/
structure Settings (T : Type) where
  pid : ℤ
  eofExitGrace : T
  heartbeatTimeout : T
  pollSeconds : T
  /-- There is a sender. -/
  injected : Bool

section Watch

variable {T : Type} [LinearOrder T] [Sub T] [Zero T]
variable (hmac : Json → Str) (repr : Double → Str) (run : Str) (p : Settings T) (w : World T)

/-- The wait for the next item, and the log after it. -/
def waiting (s : Loop T) (log : Log T) : T × Log T :=
  match s.eofAt with
  | none => (p.pollSeconds, log)
  | some closed =>
    (min p.pollSeconds (max 0 (p.eofExitGrace - (w.clock log - closed))), .clock (w.clock log) :: log)

def incidentOf (reason : Reason) : Incident := ⟨reason.text, "CRITICAL", p.pid⟩

/-- The call that leaves the machine. -/
def sent (reason : Reason) : Event T :=
  if p.injected then .sender (incidentOf p reason) else .beacon (incidentOf p reason)

/-- The probes right before the incident is sent, and the sending. -/
def egress (reason : Reason) (log : Log T) : (Loop T ⊕ Reason) × Log T :=
  let authority := w.authority log
  let log := .authority authority :: log
  if !authority then (.inr .authorizationRevoked, log)
  else
    let destination := w.destination log
    let log := .destination destination :: log
    if !destination then (.inr .authorizationRevoked, log)
    else (.inr reason, sent p reason :: log)

/-- What there is to report, if anything. -/
def alert (s : Loop T) (identity : Identity) (now : T) : Option Reason :=
  if identity = .gone then some .engineExit
  else if s.eofAt.any (fun closed => p.eofExitGrace ≤ now - closed) ∨
      p.heartbeatTimeout < now - s.lastSeen then
    some .heartbeatLost
  else none

/-- The loop after the queue: authority, identity, and liveness. -/
def judge (s : Loop T) (log : Log T) : (Loop T ⊕ Reason) × Log T :=
  let authority := w.authority log
  let log := .authority authority :: log
  if !authority then (.inr .authorizationRevoked, log)
  else
    let identity := w.identity log
    let log := .identity identity :: log
    if identity = .unknown ∨ identity = .reused then (.inr .identityUnverifiable, log)
    else if !s.authenticated then
      if s.eofAt.isSome ∨ identity ≠ .alive then (.inr .unauthenticatedState, log)
      else if p.heartbeatTimeout < w.clock log - s.lastSeen then
        (.inr .unauthenticatedState, .clock (w.clock log) :: log)
      else (.inl s, .clock (w.clock log) :: log)
    else
      let now := w.clock log
      (alert p s identity now).elim (.inl s, .clock now :: log)
        fun reason => egress p w reason (.clock now :: log)

/-- A message: the loop goes on with the next item. -/
def accept (s : Loop T) (log : Log T) (message : Loaded) : (Loop T ⊕ Reason) × Log T :=
  match verify hmac repr run message s.previous with
  | none => (.inr .invalidState, .verified none :: log)
  | some body =>
    let log := .verified (some body) :: log
    let seen := w.clock log
    let log := .clock seen :: log
    if body.kind = .stop then (.inr .normalStop, log)
    else
      (.inl ⟨seen, body.seq, true, s.eofAt, false⟩, if s.onReady then .ready :: log else log)

/-- One turn of the loop. -/
def turn (s : Loop T) (log : Log T) : (Loop T ⊕ Reason) × Log T :=
  let fault := w.fault log
  let log := .fault fault :: log
  if fault then (.inr .invalidState, log)
  else
    let wait := (waiting p w s log).1
    let log := (waiting p w s log).2
    let item := w.item log wait
    let log := .got wait item :: log
    match item with
    | none => judge p w s log
    | some .invalid => (.inr .invalidState, log)
    | some .eof => judge p w { s with eofAt := some (w.clock log) } (.clock (w.clock log) :: log)
    | some (.message m) => accept hmac repr run w s log m

/-- At most `n` turns; no reason while the loop still runs. -/
def loop : ℕ → Loop T → Log T → Option Reason × Log T
  | 0, _, log => (none, log)
  | n + 1, s, log =>
    (turn hmac repr run p w s log).1.elim
      (fun next => loop n next (turn hmac repr run p w s log).2)
      fun reason => (some reason, (turn hmac repr run p w s log).2)

/-- `_consume_watch_messages`, up to `n` turns. -/
def consumeWatchMessages (onReady : Bool) (n : ℕ) : Option Reason × Log T :=
  let started := w.clock []
  loop hmac repr run p w n ⟨started, 0, false, none, onReady⟩ [.clock started]

end Watch

end Angerona.Beacon
