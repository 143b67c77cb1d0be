import Mathlib
import Angerona.Lib.Effect
import Angerona.Lib.PyNumber
import Angerona.Lib.Reach
import Angerona.Lib.SetDict

/-!
    The provenance graph (`modules/provenance_graph.py`): processes, files and connections, and which
    came from which.

    The graph is bounded: the node that was touched longest ago goes when there are too many, and the
    edge when there are too many edges. A process is named by its PID and, where an event gives one,
    by an identity of its lifetime; `_latest_pid_node` says which lifetime a PID stands for now. -/

namespace Angerona.Provenance
open Text PyJson Effect Reach

/-! ### Nodes -/

inductive Kind where
  | proc | fim | net
  deriving DecidableEq

/-- The key of a node. -/
inductive NodeId where
  /-- `PROC:{pid}`. -/
  | pid (p : ℤ)
  /-- `PROC:{pid}@{token}`. -/
  | life (p : ℤ) (token : Str)
  /-- `PROC:?`. -/
  | unknown
  | file (path : Str)
  | net (address : Str)
  deriving DecidableEq

def NodeId.text : NodeId → Str
  | .pid p => "PROC:".toList ++ intText p
  | .life p token => "PROC:".toList ++ intText p ++ "@".toList ++ token
  | .unknown => "PROC:?".toList
  | .file path => "FIM:".toList ++ path
  | .net address => "NET:".toList ++ address

/-- A value of the details, by what `ingest` asks of it: `none` where asking raises. -/
structure Value where
  /-- It is `None`, `""` or `[]`. -/
  blank : Bool
  truthy : Option Bool
  /-- `_safe_int(value)`. -/
  safeInt : Option (Option ℤ)
  /-- `str(value)`. -/
  text : Option Str
  /-- `value.split("\\")[-1]`. -/
  basename : Option Str
  /-- `value == 4688`. -/
  is4688 : Bool
  deriving DecidableEq

/-- A label: a text that was made here, or a value as it came. -/
inductive Label where
  | text (s : Str)
  | value (v : Value)
  deriving DecidableEq

def Label.truthy : Label → Option Bool
  | .text s => some (!s.isEmpty)
  | .value v => v.truthy

def Label.str : Label → Option Str
  | .text s => some s
  | .value v => v.text

structure Meta where
  module : Option Str
  pid : Option ℤ
  processIdentity : Option Str
  sourceEvents : List Str
  deriving DecidableEq

structure Node where
  kind : Kind
  label : Label
  ts : PyFloat
  info : Meta
  deriving DecidableEq

/-- `_node_pid`. -/
def Node.nodePid (n : Node) : Option ℤ := if n.kind = .proc then n.info.pid else none

structure Graph where
  maxNodes : ℕ
  maxEdges : ℕ
  nodes : Dict NodeId Node
  edges : Dict NodeId (List NodeId)
  parents : Dict NodeId (List NodeId)
  edgeOrder : List (NodeId × NodeId)
  latestPidNode : Dict ℤ NodeId
  pidNodes : Dict ℤ (List NodeId)

def Graph.new (maxNodes maxEdges : ℤ) : Graph where
  maxNodes := (max 1 maxNodes).toNat
  maxEdges := (max 1 maxEdges).toNat
  nodes := .empty
  edges := .empty
  parents := .empty
  edgeOrder := []
  latestPidNode := .empty
  pidNodes := .empty

/-- What is used of the interpreter. -/
structure Machine where
  /-- `hashlib.sha256(text.encode("utf-8", "replace")).hexdigest()[:20]`. -/
  token : Str → Str
  /-- `f"{float(ts):.6f}"`. -/
  fixed : PyFloat → Str
  /-- `a > b` of two pairs of a timestamp and the text of an id. -/
  later : PyFloat × Str → PyFloat × Str → Bool

/-! ### Edges -/

/-- `_discard_edge`. -/
def Graph.discardEdge (g : Graph) (parent child : NodeId) : Graph :=
  { g with
    edges := g.edges.discard parent child
    parents := g.parents.discard child parent
    edgeOrder := g.edgeOrder.filter (· ≠ (parent, child)) }

/-- `_ancestor_ids`: the order in which the stack is worked off does not matter. Fuel for every edge
    to be pushed from the stack and from its end is enough. -/
def Graph.ancestorIds (g : Graph) (id : NodeId) : Option (List NodeId) :=
  search g.parents.members (2 * g.edgeOrder.length) (g.parents.members id) []

/-- `while len(self._edge_order) > self.max_edges`. -/
def Graph.trimEdges : ℕ → Graph → Graph
  | 0, g => g
  | n + 1, g =>
    if g.maxEdges < g.edgeOrder.length then
      match g.edgeOrder with
      | [] => g
      | (parent, child) :: _ => trimEdges n (g.discardEdge parent child)
    else g

/-- `add_edge`: `none` if the walk over the ancestors does not end. -/
def Graph.addEdge (g : Graph) (parent child : NodeId) : Option Graph :=
  if parent = child ∨ (g.nodes.get? parent).isNone ∨ (g.nodes.get? child).isNone then some g
  else if (g.edges.members parent).contains child then
    some { g with edgeOrder := g.edgeOrder.filter (· ≠ (parent, child)) ++ [(parent, child)] }
  else
    (g.ancestorIds parent).map fun ancestors =>
      if ancestors.contains child then g
      else
        let g := { g with
          edges := g.edges.addMember parent child
          parents := g.parents.addMember child parent
          edgeOrder := g.edgeOrder ++ [(parent, child)] }
        g.trimEdges g.edgeOrder.length

/-! ### Adding nodes -/

/-- `_discard_pid_node`. -/
def discardPid (pidNodes : Dict ℤ (List NodeId)) (pid : Option ℤ) (id : NodeId) : Dict ℤ (List NodeId) :=
  pid.elim pidNodes fun p => pidNodes.discard p id

/-- `max(candidates)[1]`, if there are any. -/
def latest (m : Machine) : List (PyFloat × NodeId) → Option NodeId
  | [] => none
  | c :: cs => some (cs.foldl (fun best c =>
      if m.later (c.1, c.2.text) (best.1, best.2.text) then c else best) c).2

/-- `_drop_node_links`: every node that is indexed under a PID is there, so that its timestamp can be
    read. -/
def Graph.dropNodeLinks (m : Machine) (g : Graph) (id : NodeId) (node : Node) : Graph :=
  let g := (g.edges.members id).foldl (fun g child => g.discardEdge id child) g
  let g := (g.parents.members id).foldl (fun g parent => g.discardEdge parent id) g
  let g := { g with pidNodes := discardPid g.pidNodes node.nodePid id }
  match node.nodePid with
  | none => g
  | some p =>
    if g.latestPidNode.get? p = some id then
      let candidates := (g.pidNodes.members p).filterMap fun c =>
        (g.nodes.get? c).map fun n => (n.ts, c)
      match latest m candidates with
      | some c => { g with latestPidNode := g.latestPidNode.set p c }
      | none => { g with latestPidNode := g.latestPidNode.erase p }
    else g

/-- `while len(self.nodes) > self.max_nodes`. -/
def Graph.trimNodes (m : Machine) : ℕ → Graph → Graph
  | 0, g => g
  | n + 1, g =>
    if g.maxNodes < g.nodes.size then
      match g.nodes.items with
      | [] => g
      | (retired, node) :: _ =>
        trimNodes m n (({ g with nodes := g.nodes.erase retired }).dropNodeLinks m retired node)
    else g

/-- A given value, if it is true, or else the one there was. -/
def given {α : Type} (truthy : α → Bool) (new old : Option α) : Option α := (new.filter truthy).or old

/-- `source_events` after an event. -/
def addSource (sources : List Str) (event : Str) : List Str :=
  if event = [] ∨ event ∈ sources then sources
  else (sources ++ [event]).drop ((sources ++ [event]).length - 16)

/-- The metadata of a new node. -/
def Meta.fresh (info : Meta) (event : Str) : Meta :=
  { info with sourceEvents := if event = [] then [] else [event] }

/-- The metadata of a node that is seen again. -/
def Meta.update (old new : Meta) (event : Str) : Meta where
  module := given (!·.isEmpty) new.module old.module
  pid := given (· ≠ 0) new.pid old.pid
  processIdentity := given (!·.isEmpty) new.processIdentity old.processIdentity
  sourceEvents := addSource old.sourceEvents event

/-- `f"pid {meta.get('pid', '')}"`. -/
def pidLabel : Option ℤ → Option Str
  | none => some "pid ".toList
  | some p => if tooLong p then none else some ("pid ".toList ++ intText p)

/-- The label of a node that is seen again; `none` where asking for it raises. -/
def relabel (old new : Label) (pid : Option ℤ) : Option Label := do
  if ← new.truthy then
    let s ← new.str
    let plain ← pidLabel pid
    return if s = plain then old else new
  else return old

/-- `add_node`. -/
def addNode (m : Machine) (id : NodeId) (kind : Kind) (label : Label) (ts : PyFloat) (info : Meta)
    (event : Str) : Effect Unit Graph Unit := do
  let event := event.take 128
  let g ← read
  let previous := (g.nodes.get? id).bind Node.nodePid
  let node ← match g.nodes.get? id with
    | none =>
      modify fun g => { g with nodes := g.nodes.set id ⟨kind, label, ts, info.fresh event⟩ }
      pure (Node.mk kind label ts (info.fresh event))
    | some n => do
      let ts := if n.ts.lt ts then ts else n.ts
      modify fun g => { g with nodes := g.nodes.set id { n with ts := ts } }
      let label ← demand (relabel n.label label info.pid) ()
      let n : Node := ⟨n.kind, label, ts, n.info.update info event⟩
      modify fun g => { g with nodes := (g.nodes.set id n).moveToEnd id }
      pure n
  modify fun g =>
    let current := node.nodePid
    let pidNodes := if previous = current then g.pidNodes else discardPid g.pidNodes previous id
    { g with pidNodes := current.elim pidNodes fun p => pidNodes.addMember p id }
  modify fun g => g.trimNodes m g.nodes.size

/-! ### Events -/

structure Event where
  module : Str
  details : Dict Str Value
  ts : PyFloat
  /-- The digest of the event; `none` if it cannot be written. -/
  digest : Option Str
  /-- What `_PID_RE` finds in the message. -/
  messagePid : Option ℤ

/-- `_first`. -/
def first (details : Dict Str Value) (keys : List String) : Option Value :=
  keys.findSome? fun k => (details.get? k.toList).filter (!·.blank)

/-- `_safe_int` of what `_first` found; `none` where it raises. -/
def firstInt (details : Dict Str Value) (keys : List String) : Option (Option ℤ) :=
  match first details keys with
  | none => some none
  | some v => v.safeInt

def pidKeys : List String := ["pid", "process_id", "target_pid", "child_pid"]

def ppidKeys : List String := ["ppid", "parent_pid", "parentpid", "parent"]

def pathKeys : List String := ["path", "file", "filepath", "target", "artifact"]

def netKeys : List String :=
  ["dest_hostname", "dest_ip", "raddr", "remote", "remote_addr", "dst", "destination"]

/-- `_pid_id`. -/
def pidId (p : ℤ) : NodeId := if tooLong p then .unknown else .pid p

def identityKeys (parent : Bool) : List String :=
  if parent then ["parent_process_guid", "parent_process_create_time", "parent_create_time",
    "parent_birth_time"]
  else ["process_guid", "process_create_time", "create_time", "birth_time"]

/-- The event type, as `_process_node_id` reads it; `none` where reading raises. -/
def eventType (details : Dict Str Value) : Option Str := do
  let get := fun (k : String) => details.get? k.toList
  match get "event_type" with
  | none => ofKind (get "kind")
  | some v => if ← v.truthy then v.text else ofKind (get "kind")
where
  /-- `str(details.get("kind") or "")`. -/
  ofKind : Option Value → Option Str
    | none => some []
    | some v => do if ← v.truthy then v.text else return []

/-- The identity that an event gives a lifetime, rendered but not cut; `none` where reading raises. -/
def rawIdentity (m : Machine) (ev : Event) (parent : Bool) : Option (Option Str) :=
  match first ev.details (identityKeys parent) with
  | some v => v.text.map some
  | none =>
    if parent then some none
    else (eventType ev.details).map fun type =>
      if type = "process_creation".toList ∨ type = "process_created".toList ∨
          (ev.details.get? "eid".toList).any Value.is4688 then
        some ("event:".toList ++ m.fixed ev.ts)
      else none

/-- `_process_node_id`. -/
def processNodeId (m : Machine) (ev : Event) (p : ℤ) (parent : Bool) :
    Effect Unit Graph (NodeId × Str) := do
  match ← demand (rawIdentity m ev parent) () with
  | none =>
    let g ← read
    pure ((g.latestPidNode.get? p).getD (pidId p), "unknown".toList)
  | some raw =>
    let rendered := (strip raw).take 512
    check (tooLong p = false) ()
    let id := NodeId.life p (m.token rendered)
    modify fun g => { g with latestPidNode := g.latestPidNode.set p id }
    pure (id, rendered)

/-- The label of a process; `none` where asking for it raises. -/
def processLabel (ev : Event) (p : ℤ) (parent : Bool) : Option Label := do
  let image := ev.details.get? (if parent then "parent_image" else "image").toList
  match image with
  | none => named
  | some v => if ← v.truthy then v.basename.map .text else named
where
  /-- `details.get("name", f"pid {pid}")`, whose default is written in any case. -/
  named : Option Label := (pidLabel (some p)).map fun plain =>
    ((ev.details.get? (if parent then "parent_name" else "name").toList).map .value).getD (.text plain)

/-- The part of `ingest` about a process, and about its parent. -/
def touchProcess (m : Machine) (ev : Event) (event : Str) (p : ℤ) (parent : Bool) :
    Effect Unit Graph NodeId := do
  let (id, identity) ← processNodeId m ev p parent
  let label ← demand (processLabel ev p parent) ()
  addNode m id .proc label ev.ts ⟨if parent then none else some ev.module, some p, some identity, []⟩ event
  pure id

/-- An edge is added to the graph. -/
def link (parent child : NodeId) : Effect Unit Graph Unit := do
  let g ← read
  let g' ← demand (g.addEdge parent child) ()
  modify fun _ => g'

/-- The part of `ingest` about a file, and about a connection. -/
def touchArtifact (m : Machine) (ev : Event) (event : Str) (process : NodeId) (keys : List String)
    (kind : Kind) (name : Str → NodeId) : Effect Unit Graph Unit :=
  match first ev.details keys with
  | none => pure ()
  | some v => do
    if ← demand v.truthy () then
      let text ← demand v.text ()
      addNode m (name text) kind (.text text) ev.ts ⟨none, none, none, []⟩ event
      link process (name text)

/-- `ingest`. -/
def ingest (m : Machine) (ev : Event) : Effect Unit Graph Unit := do
  let event ← demand ev.digest ()
  let pid ← demand (firstInt ev.details pidKeys) ()
  let ppid ← demand (firstInt ev.details ppidKeys) ()
  match pid.or ev.messagePid with
  | none => pure ()
  | some p =>
    let process ← touchProcess m ev event p false
    match ppid with
    | none => pure ()
    | some pp =>
      let parent ← touchProcess m ev event pp true
      link parent process
    touchArtifact m ev event process pathKeys .fim .file
    touchArtifact m ev event process netKeys .net .net

/-! ### Queries -/

/-- `_resolve_pid_id`. -/
def Graph.resolvePidId (g : Graph) : Option ℤ → NodeId
  | none => .unknown
  | some p => (g.latestPidNode.get? p).getD (pidId p)

/-- `sorted(ids)`. -/
def sortedIds (ids : List NodeId) : List NodeId := ids.insertionSort (·.text ≤ ·.text)

/-- The ids that `ancestry` goes over; `none` if its fuel runs out. -/
def Graph.upstream (g : Graph) (fuel : ℕ) (pid : Option ℤ) : Option (List NodeId) :=
  levels (fun id => sortedIds (g.parents.members id)) fuel [g.resolvePidId pid] []

/-- The ids that `subtree` goes over; `none` if its fuel runs out. -/
def Graph.downstream (g : Graph) (fuel : ℕ) (pid : Option ℤ) : Option (List NodeId) :=
  levels (fun id => sortedIds (g.edges.members id)) fuel [g.resolvePidId pid] [g.resolvePidId pid]

/-- The retained nodes among some ids. -/
def Graph.retained (g : Graph) (ids : List NodeId) : List (NodeId × Node) :=
  ids.filterMap fun id => (g.nodes.get? id).map fun n => (id, n)

/-- `ancestry`. -/
def Graph.ancestry (g : Graph) (fuel : ℕ) (pid : Option ℤ) : Option (List (NodeId × Node)) :=
  (g.upstream fuel pid).map g.retained

/-- `subtree`. -/
def Graph.subtree (g : Graph) (fuel : ℕ) (pid : Option ℤ) : Option (List (NodeId × Node)) :=
  (g.downstream fuel pid).map g.retained

structure BlastRadius where
  root : NodeId
  upstream : List (NodeId × Node)
  downstream : List (NodeId × Node)
  nodes : List (NodeId × Node)
  edges : List (NodeId × NodeId)

/-- `blast_radius`, while nothing is ingested; the counts are the lengths of its lists. -/
def Graph.blastRadius (g : Graph) (fuel : ℕ) (pid : Option ℤ) : Option BlastRadius := do
  let root := g.resolvePidId pid
  let up ← g.ancestry fuel pid
  let down ← g.subtree fuel pid
  let ids := (root :: up.map Prod.fst ++ down.map Prod.fst).dedup
  let edges := ids.flatMap fun p => ((g.edges.members p).filter ids.contains).map fun c => (p, c)
  return ⟨root, up, down, g.retained ids, edges⟩

end Angerona.Provenance
