import Mathlib
import Angerona.Bus.Model
import Angerona.Lib.Dict
import Angerona.Lib.Text

/-!
    The polls of the beacon detector, `modules/beacon_detector.py`.

    A poll compares the connection table with the last table that was complete; a connection that is
    not in it is a new one, and the time of the poll is one callback of its process generation. The
    arithmetic of mean and jitter is that of floats and is a parameter; which intervals it is given,
    and how many there must be, is computed. -/

namespace Angerona.Cadence
open Text

/-- What the detector takes from its host; `T` are the times, `C` a mean and a jitter. -/
structure Host (T C : Type) where
  /-- `int()` of a text. -/
  parseInt : Str → Option ℤ
  /-- `now - last > _EVICT_AFTER`. -/
  stale : T → T → Bool
  /-- Whether intervals are a cadence, with their mean and jitter. -/
  judge : List (T × T) → Bool × C
  /-- `(0.0, 1.0)`. -/
  unjudged : C

/-- A row of the connection table. -/
structure Row where
  raddr : Str
  status : Str
  pid : ℕ

/-- A poll that got a table; `order` is the order in which a set of connections is walked. -/
structure Snapshot (T : Type) where
  now : T
  rows : List Row
  complete : Bool
  error : Str
  /-- The birth time and the name of a process; `none` when the lookup fails. -/
  identity : ℕ → Option (T × Str)
  flagged : Str → Bool
  order : List (ℕ × Str) → List (ℕ × Str)
  walks : ∀ l, (order l).Perm l

inductive Poll (T : Type) where
  /-- `list_connections` raised. -/
  | unread (error : Str)
  | table (s : Snapshot T)

/-- A process generation and its peer. -/
structure Key (T : Type) where
  pid : ℕ
  created : T
  name : Str
  ip : Str
  deriving DecidableEq

/-- What is emitted; `response` is what a containment response is bound to. -/
structure Finding (T C : Type) where
  key : Key T
  callbacks : ℕ
  cadence : C
  corroborated : Bool
  response : Option (ℕ × T × Str)

/-- The state of the module; `recorded` is the key of every callback so far, and the program does not
    keep it. -/
structure Detector (T C : Type) [DecidableEq T] where
  seenLast : List (ℕ × Str)
  callbacks : Dict (Key T) (List T)
  alerted : Finset (Key T)
  corroboratedAlerted : Finset (Key T)
  detections : ℕ
  emitted : List (Finding T C)
  recorded : List (Key T)

structure Receipt where
  complete : Bool
  observed : ℕ
  identityFailures : ℕ
  error : Str

def minCallbacks : ℕ := 4

def history : ℕ := 12

/-- `_PRIVATE_PREFIXES`. -/
def privatePrefixes : List String := ["10.", "192.168.", "127.", "169.254.", "::1", "fe80:"]

variable {T C : Type} [LinearOrder T]

namespace Host

variable (H : Host T C)

/-- `_is_external`. -/
def isExternal (ip : Str) : Bool :=
  if ip = [] then false
  else if "172.".toList.isPrefixOf ip then
    match (splitOn ".".toList ip)[1]?.bind H.parseInt with
    | some n => !(16 ≤ n && n ≤ 31)
    | none => true
  else !privatePrefixes.any fun start => start.toList.isPrefixOf ip

/-- `_beacon_score`. -/
def beaconScore (timestamps : List T) : Bool × C :=
  if timestamps.length < minCallbacks then (false, H.unjudged)
  else
    let ts := timestamps.insertionSort (· ≤ ·)
    let intervals := (ts.zip ts.tail).filter fun i => i.1 < i.2
    if intervals.length < minCallbacks - 1 then (false, H.unjudged) else H.judge intervals

/-- The process and the peer of a row that counts. -/
def connection (row : Row) : Option (ℕ × Str) :=
  if row.raddr = [] || !(["ESTABLISHED", "SYN_SENT"].any fun s => s.toList = row.status) then none
  else
    let ip := (rcut ":".toList row.raddr).elim row.raddr Prod.fst
    if !H.isExternal ip || row.pid = 0 then none else some (row.pid, ip)

/-- `current`. -/
def current (s : Snapshot T) : List (ℕ × Str) := (s.rows.filterMap H.connection).dedup

end Host

/-- `str(process.name() or "?")[:260]`. -/
def shownName (name : Str) : Str := (if name = [] then "?".toList else name).take 260

/-- The key of a connection; `none` when its process was not identified. -/
def Snapshot.key (s : Snapshot T) (connection : ℕ × Str) : Option (Key T) :=
  (s.identity connection.1).map fun identity =>
    ⟨connection.1, identity.1, shownName identity.2, connection.2⟩

namespace Detector

def new : Detector T C := ⟨[], Dict.empty, ∅, ∅, 0, [], []⟩

/-- The history of a key with one more callback. -/
def extended (d : Detector T C) (key : Key T) (now : T) : List T :=
  let hist := (d.callbacks.get? key).getD [] ++ [now]
  hist.drop (hist.length - history)

/-- The body of the loop over the new connections. -/
def observe (H : Host T C) (s : Snapshot T) (d : Detector T C) (connection : ℕ × Str) :
    Detector T C :=
  match s.key connection with
  | none => d
  | some key =>
    let hist := d.extended key s.now
    let score := H.beaconScore hist
    let corroborated := score.1 && s.flagged key.ip
    let d :=
      { d with callbacks := d.callbacks.set key hist, recorded := d.recorded ++ [key] }
    if score.1 && (key ∉ d.alerted || (corroborated && key ∉ d.corroboratedAlerted)) then
      { d with
        detections := if key ∈ d.alerted then d.detections else d.detections + 1
        alerted := insert key d.alerted
        corroboratedAlerted :=
          if corroborated then insert key d.corroboratedAlerted else d.corroboratedAlerted
        emitted := d.emitted ++ [⟨key, hist.length, score.2, corroborated,
          if corroborated then some (key.pid, key.created, key.ip) else none⟩] }
    else d

/-- The last callback of a key is too long ago. -/
def expired (H : Host T C) (now : T) (hist : List T) : Bool := hist.getLast?.any (H.stale now)

/-- The eviction of stale histories. -/
def evict (H : Host T C) (now : T) (d : Detector T C) : Detector T C :=
  let dropped := fun key => (d.callbacks.get? key).any (expired H now)
  { d with
    callbacks := d.callbacks.keep fun i => !expired H now i.2
    alerted := d.alerted.filter fun key => !dropped key
    corroboratedAlerted := d.corroboratedAlerted.filter fun key => !dropped key }

/-- The connections of a table that are new. -/
def fresh (H : Host T C) (s : Snapshot T) (d : Detector T C) : List (ℕ × Str) :=
  s.order ((H.current s).filter fun connection => !d.seenLast.contains connection)

/-- `_poll_once`. -/
def pollOnce (H : Host T C) (d : Detector T C) : Poll T → Detector T C × Receipt
  | .unread error => (d, ⟨false, 0, 0, error.take 500⟩)
  | .table s =>
    let observed := (d.fresh H s).foldl (observe H s) d
    let settled :=
      { observed with seenLast := if s.complete then H.current s else observed.seenLast }
    let failures := (((H.current s).map Prod.fst).dedup.filter fun pid => s.identity pid = none).length
    let errors := (if s.error.take 500 = [] then [] else [s.error.take 500]) ++
      if failures = 0 then []
      else [(toString failures ++ " process identity lookup(s) failed").toList]
    (settled.evict H s.now, ⟨s.complete && failures = 0, s.rows.length, failures,
      (join "; ".toList errors).take 500⟩)

/-- The detector after polls from its start. -/
def run (H : Host T C) (polls : List (Poll T)) : Detector T C :=
  polls.foldl (fun d poll => (d.pollOnce H poll).1) new

end Detector

end Angerona.Cadence
