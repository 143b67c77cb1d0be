import Mathlib
import Angerona.Provenance.Ingest

/-!
    What the queries of the provenance graph return over whole runs, and an image that cannot be
    split. -/

namespace Angerona.Provenance
open Text PyJson Effect Reach Relation Transition

variable {m : Machine} {g : Graph} {most mostEdges : ℕ}

theorem mem_sortedIds {ids : List NodeId} {x : NodeId} : x ∈ sortedIds ids ↔ x ∈ ids :=
  List.mem_insertionSort _

/-- The nodes that are retained among ids that all are. -/
theorem mem_retained {ids : List NodeId} {id : NodeId} {n : Node} :
    (id, n) ∈ g.retained ids ↔ id ∈ ids ∧ g.nodes.get? id = some n := by
  rw [Graph.retained, List.mem_filterMap]
  constructor
  · rintro ⟨x, hx, h⟩
    obtain ⟨n', hn', he⟩ := Option.map_eq_some_iff.mp h
    obtain ⟨rfl, rfl⟩ := Prod.mk.inj he
    exact ⟨hx, hn'⟩
  · rintro ⟨hid, hn⟩
    exact ⟨id, hid, by rw [hn]; rfl⟩

theorem retained_sublist (g : Graph) : ∀ ids, ((g.retained ids).map Prod.fst).Sublist ids
  | [] => List.Sublist.refl _
  | id :: ids => by
    have ih := retained_sublist g ids
    rw [Graph.retained] at ih ⊢
    rcases hid : g.nodes.get? id with _ | n
    · rw [List.filterMap_cons_none (by rw [hid]; rfl)]
      exact ih.cons id
    · rw [List.filterMap_cons_some (show _ = some (id, n) by rw [hid]; rfl), List.map_cons]
      exact ih.cons_cons id

theorem nodup_retained {ids : List NodeId} (h : ids.Nodup) : ((g.retained ids).map Prod.fst).Nodup :=
  (retained_sublist g ids).nodup h

/-! ### The levels above and below -/

/-- The nodes that are there, and one more. -/
def around (g : Graph) (id : NodeId) : Finset NodeId := insert id (g.nodes.items.map Prod.fst).toFinset

theorem card_around (g : Graph) (id : NodeId) : (around g id).card ≤ g.nodes.size + 1 := by
  refine (Finset.card_insert_le _ _).trans (Nat.add_le_add_right ?_ 1)
  refine (List.toFinset_card_le _).trans ?_
  rw [List.length_map]
  exact le_rfl

/-- One node is no further than another. -/
def Nearer (r : NodeId → NodeId → Prop) (start a b : NodeId) : Prop :=
  ∀ k, Walk r (k + 1) start b → ∃ j ≤ k, Walk r (j + 1) start a

/-- A view of the edges, gone over in levels from a node. -/
theorem levels_around {view : NodeId → List NodeId} {r : NodeId → NodeId → Prop}
    (hview : ∀ x y, y ∈ view x ↔ r x y) (hin : ∀ x y, r x y → (g.nodes.get? y).isSome = true)
    (start : NodeId) {seen : List NodeId} (hseen : ∀ x ∈ seen, x = start)
    (hacyclic : ¬TransGen r start start) {fuel : ℕ} (hfuel : g.nodes.size + 2 ≤ fuel) :
    ∃ ids, levels view fuel [start] seen = some ids ∧ ids.Nodup ∧
      (∀ z, z ∈ ids ↔ TransGen r start z) ∧ ids.Pairwise (Nearer r start) := by
  have hclosed : Closed view (around g start) := by
    intro x _ y hy
    refine Finset.mem_insert_of_mem ?_
    rw [List.mem_toFinset, Dict.mem_keys]
    exact hin x y ((hview x y).mp hy)
  have hstart : ∀ x ∈ [start], x ∈ around g start := by
    intro x hx
    rw [List.mem_singleton.mp hx]
    exact Finset.mem_insert_self _ _
  have hcard : ((around g start).filter (· ∉ seen)).card + 1 ≤ fuel := by
    have h1 := Finset.card_filter_le (around g start) (· ∉ seen)
    have h2 := card_around g start
    omega
  obtain ⟨ids, hids⟩ := levels_returns hclosed hstart hcard
  have hfirst : ∀ x ∈ seen, x ∈ [start] ∨ ∀ y ∈ view x, y ∈ seen :=
    fun x hx => Or.inl (List.mem_singleton.mpr (hseen x hx))
  have hnext : Next view = r := by
    funext x y
    exact propext (hview x y)
  obtain ⟨hnodup, hmem⟩ := levels_spec hids hfirst
  have hnear := levels_nearest hids hfirst
  rw [hnext] at hmem hnear
  refine ⟨ids, hids, hnodup, fun z => ?_, hnear.imp fun {a b} hab k hwalk => ?_⟩
  · rw [hmem]
    constructor
    · rintro ⟨-, f, hf, hz⟩
      rw [List.mem_singleton.mp hf] at hz
      exact hz
    · intro hz
      refine ⟨fun hzs => hacyclic ?_, start, List.mem_cons_self, hz⟩
      rw [hseen z hzs] at hz
      exact hz
  · obtain ⟨j, hj, f, hf, ha⟩ := hab k ⟨start, List.mem_cons_self, hwalk⟩
    rw [List.mem_singleton.mp hf] at ha
    exact ⟨j, hj, ha⟩

theorem upstream_spec (h : Sound most mostEdges g) (pid : Option ℤ) {fuel : ℕ} (hfuel : g.nodes.size + 2 ≤ fuel) :
    ∃ ids, g.upstream fuel pid = some ids ∧ ids.Nodup ∧
      (∀ z, z ∈ ids ↔ TransGen g.Edge z (g.resolvePidId pid)) ∧
      ids.Pairwise (Nearer (Function.swap g.Edge) (g.resolvePidId pid)) := by
  have hswap : ∀ x y, TransGen (Function.swap g.Edge) x y ↔ TransGen g.Edge y x := fun x y =>
    transGen_swap
  obtain ⟨ids, hids, hnodup, hmem, hnear⟩ := levels_around (r := Function.swap g.Edge)
    (fun x y => mem_sortedIds.trans (h.whole.linked.parents_iff y x))
    (fun x y hxy => (h.whole.ends y x hxy).1) (g.resolvePidId pid) (List.forall_mem_nil _)
    (fun hx => h.whole.linked.acyclic _ ((hswap _ _).mp hx)) hfuel
  exact ⟨ids, hids, hnodup, fun z => (hmem z).trans (hswap _ _), hnear⟩

theorem downstream_spec (h : Sound most mostEdges g) (pid : Option ℤ) {fuel : ℕ} (hfuel : g.nodes.size + 2 ≤ fuel) :
    ∃ ids, g.downstream fuel pid = some ids ∧ ids.Nodup ∧
      (∀ z, z ∈ ids ↔ TransGen g.Edge (g.resolvePidId pid) z) ∧
      ids.Pairwise (Nearer g.Edge (g.resolvePidId pid)) :=
  levels_around (fun x y => mem_sortedIds.trans (h.whole.linked.edges_iff x y))
    (fun x y hxy => (h.whole.ends x y hxy).2) (g.resolvePidId pid)
    (fun _ hx => List.mem_singleton.mp hx) (h.whole.linked.acyclic _) hfuel

/-- A query that lists the retained nodes in a relation to the node of a PID, each once. -/
def Lists (g : Graph) (query : Option (List (NodeId × Node))) (r : NodeId → Prop) : Prop :=
  ∃ nodes, query = some nodes ∧ (nodes.map Prod.fst).Nodup ∧
    ∀ id n, (id, n) ∈ nodes ↔ g.nodes.get? id = some n ∧ r id

theorem ancestry_lists (h : Sound most mostEdges g) (pid : Option ℤ) {fuel : ℕ} (hfuel : g.nodes.size + 2 ≤ fuel) :
    Lists g (g.ancestry fuel pid) fun id => TransGen g.Edge id (g.resolvePidId pid) := by
  obtain ⟨ids, hids, hnodup, hmem, -⟩ := upstream_spec h pid hfuel
  refine ⟨g.retained ids, by rw [Graph.ancestry, hids]; rfl, nodup_retained hnodup, fun id n => ?_⟩
  rw [mem_retained, hmem, and_comm]

theorem subtree_lists (h : Sound most mostEdges g) (pid : Option ℤ) {fuel : ℕ} (hfuel : g.nodes.size + 2 ≤ fuel) :
    Lists g (g.subtree fuel pid) fun id => TransGen g.Edge (g.resolvePidId pid) id := by
  obtain ⟨ids, hids, hnodup, hmem, -⟩ := downstream_spec h pid hfuel
  refine ⟨g.retained ids, by rw [Graph.subtree, hids]; rfl, nodup_retained hnodup, fun id n => ?_⟩
  rw [mem_retained, hmem, and_comm]

/-! ### Whole runs -/

/-- What the graph promises, for the bounds it was made with. -/
structure Promised (maxNodes maxEdges : ℤ) (g : Graph) : Prop where
  acyclic : ∀ x, ¬TransGen g.Edge x x
  same_edges : ∀ p c, (c ∈ g.edges.members p ↔ (p, c) ∈ g.edgeOrder) ∧
    (p ∈ g.parents.members c ↔ (p, c) ∈ g.edgeOrder)
  once : g.edgeOrder.Nodup ∧ (∀ p, (g.edges.members p).Nodup) ∧ ∀ c, (g.parents.members c).Nodup
  joins : ∀ p c, (p, c) ∈ g.edgeOrder →
    (g.nodes.get? p).isSome = true ∧ (g.nodes.get? c).isSome = true
  bounds : (g.nodes.size : ℤ) ≤ max 1 maxNodes ∧ (g.edgeOrder.length : ℤ) ≤ max 1 maxEdges
  index : ∀ p id, id ∈ g.pidNodes.members p ↔ ∃ n, g.nodes.get? id = some n ∧ n.nodePid = some p
  latest : ∀ p id, g.latestPidNode.get? p = some id →
    ∃ n, g.nodes.get? id = some n ∧ n.nodePid = some p
  ancestry : ∀ pid fuel, g.nodes.size + 2 ≤ fuel →
    Lists g (g.ancestry fuel pid) fun id => TransGen g.Edge id (g.resolvePidId pid)
  subtree : ∀ pid fuel, g.nodes.size + 2 ≤ fuel →
    Lists g (g.subtree fuel pid) fun id => TransGen g.Edge (g.resolvePidId pid) id

theorem promised_of_sound {maxNodes maxEdges : ℤ}
    (h : Sound (max 1 maxNodes).toNat (max 1 maxEdges).toNat g) : Promised maxNodes maxEdges g where
  acyclic := h.whole.linked.acyclic
  same_edges p c := ⟨h.whole.linked.edges_iff p c, h.whole.linked.parents_iff p c⟩
  once := ⟨h.whole.linked.once, h.whole.linked.children, h.whole.linked.ancestors⟩
  joins := h.whole.ends
  bounds := by
    have hnodes := h.bounded.nodes
    have hedges := h.bounded.edges
    omega
  index := h.whole.indexed.index
  latest p id hid := (h.whole.current p id hid).2
  ancestry pid _ hfuel := ancestry_lists h pid hfuel
  subtree pid _ hfuel := subtree_lists h pid hfuel

/-- CORRECT: in every run of `ingest` in which an event that gives the lifetime of a process comes
    with an image that can be split, or none, the graph keeps its promises, and the two queries list
    exactly what is reachable. -/
theorem ingests_promised {maxNodes maxEdges : ℤ} {evs : List Event}
    (hrun : Run (Guarded (fun _ ev => Named m ev) (Step m)) (.new maxNodes maxEdges) evs g) :
    Promised maxNodes maxEdges g := promised_of_sound (run_sound hrun)

/-! ### The blast radius -/

/-- Above a node, below it, or the node. -/
def Touches (g : Graph) (root id : NodeId) : Prop :=
  id = root ∨ TransGen g.Edge id root ∨ TransGen g.Edge root id

/-- The nodes and the edges of a blast radius are those between what the root touches. -/
structure Encloses (g : Graph) (root : NodeId) (b : BlastRadius) : Prop where
  root_eq : b.root = root
  nodes_once : (b.nodes.map Prod.fst).Nodup
  nodes_iff : ∀ id n, (id, n) ∈ b.nodes ↔ g.nodes.get? id = some n ∧ Touches g root id
  edges_once : b.edges.Nodup
  edges_iff : ∀ p c, (p, c) ∈ b.edges ↔ (p, c) ∈ g.edgeOrder ∧ Touches g root p ∧ Touches g root c

theorem encloses_of_sound (h : Sound most mostEdges g) (pid : Option ℤ) {fuel : ℕ}
    (hfuel : g.nodes.size + 2 ≤ fuel) :
    ∃ b, g.blastRadius fuel pid = some b ∧ Encloses g (g.resolvePidId pid) b := by
  obtain ⟨up, hup, -, hupmem⟩ := ancestry_lists h pid hfuel
  obtain ⟨down, hdown, -, hdownmem⟩ := subtree_lists h pid hfuel
  have hkeys : ∀ {nodes : List (NodeId × Node)} {r : NodeId → Prop},
      (∀ id n, (id, n) ∈ nodes ↔ g.nodes.get? id = some n ∧ r id) →
        (∀ id, r id → (g.nodes.get? id).isSome = true) → ∀ id, id ∈ nodes.map Prod.fst ↔ r id := by
    intro nodes r hmem hsome id
    rw [List.mem_map]
    constructor
    · rintro ⟨⟨x, n⟩, hx, rfl⟩
      exact ((hmem x n).mp hx).2
    · intro hr
      obtain ⟨n, hn⟩ := Option.isSome_iff_exists.mp (hsome id hr)
      exact ⟨(id, n), (hmem id n).mpr ⟨hn, hr⟩, rfl⟩
  have hupids := hkeys hupmem fun id hid => by
    obtain ⟨y, hy, -⟩ := TransGen.head'_iff.mp hid
    exact (h.whole.ends id y hy).1
  have hdownids := hkeys hdownmem fun id hid => by
    obtain ⟨y, -, hy⟩ := TransGen.tail'_iff.mp hid
    exact (h.whole.ends y id hy).2
  have hids : ∀ id, id ∈ (g.resolvePidId pid :: up.map Prod.fst ++ down.map Prod.fst).dedup ↔
      Touches g (g.resolvePidId pid) id := by
    intro id
    rw [List.mem_dedup, List.mem_append, List.mem_cons, hupids, hdownids, or_assoc]
    rfl
  have honce := List.nodup_dedup (g.resolvePidId pid :: up.map Prod.fst ++ down.map Prod.fst)
  refine ⟨_, by rw [Graph.blastRadius, hup, hdown]; rfl, rfl, nodup_retained honce, fun id n => ?_,
    ?_, fun p c => ?_⟩
  · rw [mem_retained, hids, and_comm]
  · refine List.nodup_flatMap.mpr ⟨fun p _ => ?_, ?_⟩
    · exact ((h.whole.linked.children p).filter _).map fun _ _ hab => (Prod.mk.inj hab).2
    · refine honce.imp fun {a b} hab x hx hx' => hab ?_
      obtain ⟨c, -, rfl⟩ := List.mem_map.mp hx
      obtain ⟨c', -, hc'⟩ := List.mem_map.mp hx'
      exact (Prod.mk.inj hc').1.symm
  · rw [List.mem_flatMap]
    constructor
    · rintro ⟨q, hq, hmem⟩
      obtain ⟨d, hd, he⟩ := List.mem_map.mp hmem
      obtain ⟨rfl, rfl⟩ := Prod.mk.inj he
      obtain ⟨hd, hdids⟩ := List.mem_filter.mp hd
      exact ⟨(h.whole.linked.edges_iff q d).mp hd, (hids q).mp hq,
        (hids d).mp (List.contains_iff_mem.mp hdids)⟩
    · rintro ⟨hedge, hp, hc⟩
      exact ⟨p, (hids p).mpr hp, List.mem_map.mpr ⟨c, List.mem_filter.mpr
        ⟨(h.whole.linked.edges_iff p c).mpr hedge, List.contains_iff_mem.mpr ((hids c).mpr hc)⟩, rfl⟩⟩

/-- CORRECT: after every run of `ingest` in which lifetimes come with readable images, the blast
    radius of every PID is the part of the graph that its node touches: exactly the retained nodes
    above it, below it and the node itself, each once, and exactly the edges between them. -/
theorem blastRadius_exact {maxNodes maxEdges : ℤ} {evs : List Event}
    (hrun : Run (Guarded (fun _ ev => Named m ev) (Step m)) (.new maxNodes maxEdges) evs g)
    (pid : Option ℤ) {fuel : ℕ} (hfuel : g.nodes.size + 2 ≤ fuel) :
    ∃ b, g.blastRadius fuel pid = some b ∧ Encloses g (g.resolvePidId pid) b :=
  encloses_of_sound (run_sound hrun) pid hfuel

/-- CORRECT: both queries list what is nearer first, in every such run: of two nodes they list, the
    one listed first is reached over no more edges than the other. -/
theorem queries_nearest {maxNodes maxEdges : ℤ} {evs : List Event}
    (hrun : Run (Guarded (fun _ ev => Named m ev) (Step m)) (.new maxNodes maxEdges) evs g)
    (pid : Option ℤ) {fuel : ℕ} (hfuel : g.nodes.size + 2 ≤ fuel) :
    (∃ up, g.ancestry fuel pid = some up ∧
      (up.map Prod.fst).Pairwise (Nearer (Function.swap g.Edge) (g.resolvePidId pid))) ∧
    ∃ down, g.subtree fuel pid = some down ∧
      (down.map Prod.fst).Pairwise (Nearer g.Edge (g.resolvePidId pid)) := by
  have h := run_sound hrun
  obtain ⟨up, hup, -, -, hnearUp⟩ := upstream_spec h pid hfuel
  obtain ⟨down, hdown, -, -, hnearDown⟩ := downstream_spec h pid hfuel
  exact ⟨⟨g.retained up, by rw [Graph.ancestry, hup]; rfl, hnearUp.sublist (retained_sublist g up)⟩,
    g.retained down, by rw [Graph.subtree, hdown]; rfl, hnearDown.sublist (retained_sublist g down)⟩

/-! ### An image that is no text -/

/-- With the tokens of `a` and `p`. -/
def sampleMachine : Machine where
  token s :=
    if s = "a".toList then "ca978112ca1bbdcafac2".toList
    else if s = "p".toList then "148de9c5a7a44d19e56c".toList else s
  fixed := fun _ => "0.000000".toList
  later := fun _ _ => false

def intValue (n : ℤ) : Value where
  blank := false
  truthy := some (n ≠ 0)
  safeInt := some (some n)
  text := some (intText n)
  basename := none
  is4688 := n = 4688

def textValue (s : String) : Value where
  blank := s.isEmpty
  truthy := some (!s.isEmpty)
  safeInt := some none
  text := some s.toList
  basename := some s.toList
  is4688 := false

def sampleEvent (items : List (String × Value)) : Event where
  module := "sysmon".toList
  details := Dict.empty.update (items.map fun i => (i.1.toList, i.2))
  ts := .finite .zero
  digest := some "d".toList
  messagePid := none

def firstLife : Event := sampleEvent [("pid", intValue 5), ("process_guid", textValue "a")]

def otherProcess : Event := sampleEvent [("pid", intValue 6)]

/-- The image of the process is a number. -/
def secondLife : Event :=
  sampleEvent [("pid", intValue 5), ("process_guid", textValue "a"), ("image", intValue 7)]

/-- A process starts another one, which opens a file and a connection. -/
def startedChild : Event := sampleEvent [("pid", intValue 5), ("process_guid", textValue "a"),
  ("ppid", intValue 4), ("parent_process_guid", textValue "p"), ("path", textValue "f"),
  ("dest_ip", textValue "n")]

theorem named_of_labels {ev : Event}
    (h : (ev.processes.all fun q => (processLabel ev q.1 q.2).isSome) = true) : Named m ev := by
  intro q hq raw _ _ hnone
  have hlabel := List.all_eq_true.mp h q hq
  rw [hnone] at hlabel
  cases hlabel

/-- The node of another process has gone for the last of the four. -/
def startedGraph : Graph :=
  (ingest sampleMachine startedChild (ingest sampleMachine otherProcess (.new 4 3)).2).2

theorem startedGraph_run : Run (Guarded (fun _ ev => Named sampleMachine ev) (Step sampleMachine))
    (.new 4 3) [otherProcess, startedChild] startedGraph :=
  Run.cons ⟨named_of_labels (by decide +kernel), rfl⟩
    (Run.single ⟨named_of_labels (by decide +kernel), rfl⟩)

def parentId : NodeId := .life 4 "148de9c5a7a44d19e56c".toList

def childId : NodeId := .life 5 "ca978112ca1bbdcafac2".toList

/-- What the graph keeps of the two events. -/
theorem ingests_promised_started :
    startedGraph.nodes.items.map Prod.fst =
        [childId, parentId, .file "f".toList, .net "n".toList] ∧
      startedGraph.edgeOrder = [(parentId, childId), (childId, .file "f".toList),
        (childId, .net "n".toList)] ∧ Promised 4 3 startedGraph :=
  ⟨by decide +kernel, by decide +kernel, ingests_promised startedGraph_run⟩

/-- The blast radius of the started process. -/
theorem blastRadius_exact_started :
    ∃ b, startedGraph.blastRadius 6 (some 5) = some b ∧ Encloses startedGraph childId b := by
  have hroot : startedGraph.resolvePidId (some 5) = childId := by decide +kernel
  rw [← hroot]
  exact blastRadius_exact startedGraph_run (some 5) (by decide +kernel)

/-- What the other one started, the process before its file. -/
theorem queries_nearest_started :
    (startedGraph.subtree 6 (some 4)).map (List.map Prod.fst) =
        some [childId, .file "f".toList, .net "n".toList] ∧
      ∃ down, startedGraph.subtree 6 (some 4) = some down ∧
        (down.map Prod.fst).Pairwise (Nearer startedGraph.Edge parentId) := by
  have hroot : startedGraph.resolvePidId (some 4) = parentId := by decide +kernel
  rw [← hroot]
  exact ⟨by decide +kernel, (queries_nearest startedGraph_run (some 4) (by decide +kernel)).2⟩

/-- The PID stands for a node that was dropped. -/
theorem latest_dropped :
    ¬∀ (m : Machine) (maxNodes maxEdges : ℤ) (evs : List Event) (g : Graph),
      1 ≤ maxNodes → 1 ≤ maxEdges → Run (Step m) (.new maxNodes maxEdges) evs g →
        Promised maxNodes maxEdges g := by
  intro h
  have hrun : Run (Step sampleMachine) (.new 1 1) [firstLife, otherProcess, secondLife]
      (ingest sampleMachine secondLife (ingest sampleMachine otherProcess
        (ingest sampleMachine firstLife (.new 1 1)).2).2).2 :=
    Run.cons rfl (Run.cons rfl (Run.single rfl))
  have hlatest := (h _ _ _ _ _ le_rfl le_rfl hrun).latest 5 childId (by decide +kernel)
  obtain ⟨n, hn, -⟩ := hlatest
  rw [show ((ingest sampleMachine secondLife (ingest sampleMachine otherProcess
    (ingest sampleMachine firstLife (.new 1 1)).2).2).2.nodes.get? childId) = none by
      decide +kernel] at hn
  cases hn

end Angerona.Provenance
