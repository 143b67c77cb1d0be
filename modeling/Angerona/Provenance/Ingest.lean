import Mathlib
import Angerona.Lib.Transition
import Angerona.Provenance.Nodes

/-!
    What `ingest` keeps, and what the queries return.

    Between the moment `_process_node_id` makes a lifetime the one a PID stands for and the moment
    `add_node` adds its node, the label is read. An image that cannot be split raises there, and the
    PID stands for a node that may have been dropped. -/

namespace Angerona.Provenance
open Text PyJson Effect Reach Relation Transition

/-- The graph is whole and within its bounds. -/
structure Sound (most mostEdges : ℕ) (g : Graph) : Prop where
  whole : Whole g
  bounded : Bounded most mostEdges g

variable {m : Machine} {g : Graph} {most mostEdges : ℕ}

/-! ### Adding a node -/

/-- A node is added to a graph in which everything is in order but that a PID may already stand for
    the node that is added. -/
theorem addNode_spec (hl : Linked g) (hends : Ends g) (hidx : Indexed g) (hb : Bounded most mostEdges g)
    {id : NodeId} {kind : Kind} {label : Label} {ts : PyFloat} {info : Meta} (event : Str)
    (hfits : Fits id ⟨kind, label, ts, info⟩)
    (hcur : ∀ p x, g.latestPidNode.get? p = some x →
      Names g p x ∨ x = id ∧ tooLong p = false ∧ kind = .proc ∧ info.pid = some p) :
    wp (addNode m id kind label ts info event) (fun _ => Sound most mostEdges) (fun _ => Sound most mostEdges) g := by
  have hfits' : ∀ label' ts' info', info'.pid = info.pid → Fits id ⟨kind, label', ts', info'⟩ := by
    intro label' ts' info' hpid
    cases id with
    | pid q => exact ⟨hfits.1, hpid.trans hfits.2.1, hfits.2.2⟩
    | life q token => exact ⟨hfits.1, hpid.trans hfits.2.1, hfits.2.2⟩
    | unknown =>
      obtain ⟨hkind, p, hp, hlong⟩ := hfits
      exact ⟨hkind, p, hpid.trans hp, hlong⟩
    | file path => exact hfits
    | net address => exact hfits
  -- a node that fits the id is written, the index follows, and what is too much goes
  have hwrite : ∀ (n : Node) (nodes : Dict NodeId Node), Fits id n →
      (∀ p, tooLong p = false → kind = .proc → info.pid = some p → n.nodePid = some p) →
      (∀ x, nodes.get? x = if x = id then some n else g.nodes.get? x) →
      Sound most mostEdges (Graph.trimNodes m nodes.size { g with
        nodes := nodes
        pidNodes := n.nodePid.elim
          (if (g.nodes.get? id).bind Node.nodePid = n.nodePid then g.pidNodes
            else discardPid g.pidNodes ((g.nodes.get? id).bind Node.nodePid) id)
          fun p => (if (g.nodes.get? id).bind Node.nodePid = n.nodePid then g.pidNodes
            else discardPid g.pidNodes ((g.nodes.get? id).bind Node.nodePid) id).addMember p id }) := by
    intro n nodes hn hpid hnodes
    obtain ⟨hpids, honce⟩ := pids_spec hidx id n.nodePid
    have hwhole := put_spec hl hends hidx hn (fun p x hx => by
      rcases hcur p x hx with h | ⟨hid, hp, hkind, hinfo⟩
      · exact Or.inl h
      · exact Or.inr ⟨hid, hp, hpid p hp hkind hinfo⟩) hnodes hpids honce
    obtain ⟨h, hbound⟩ := trimNodes_spec (m := m) nodes.size hwhole hb.maxNodes
      hb.maxEdges hb.edges (by dsimp only; omega)
    exact ⟨h, hbound⟩
  rw [addNode]
  dsimp only
  rw [wp_bind, wp_read]
  rcases hget : g.nodes.get? id with _ | n
  · simp only [wp_bind, wp_modify, wp_pure]
    have h := hwrite ⟨kind, label, ts, info.fresh (event.take 128)⟩
      (g.nodes.set id ⟨kind, label, ts, info.fresh (event.take 128)⟩) (hfits' _ _ _ rfl)
      (fun p _ hkind hpid => nodePid_eq_some.mpr ⟨hkind, hpid⟩) (Dict.get?_set g.nodes id _)
    rw [hget] at h
    exact h
  · have hn := hidx.fits id n hget
    have hsize : ∀ n' : Node, (g.nodes.set id n').size = g.nodes.size := fun n' =>
      Dict.size_set_of_mem (by rw [hget]; rfl)
    simp only [wp_bind, wp_modify, wp_demand, wp_pure]
    refine ⟨fun label' _ => ?_, fun _ => ?_⟩
    · have hnew : Fits id ⟨n.kind, label', if n.ts.lt ts then ts else n.ts,
          n.info.update info (event.take 128)⟩ := fits_update (event.take 128) hn hfits
      have h := hwrite ⟨n.kind, label', if n.ts.lt ts then ts else n.ts,
        n.info.update info (event.take 128)⟩
        (((g.nodes.set id { n with ts := if n.ts.lt ts then ts else n.ts }).set id ⟨n.kind, label',
          if n.ts.lt ts then ts else n.ts, n.info.update info (event.take 128)⟩).moveToEnd id) hnew
        (fun p hp hkind hpid => nodePid_of_fits hfits hnew hp (nodePid_eq_some.mpr ⟨hkind, hpid⟩))
        fun x => by
          rw [Dict.get?_moveToEnd, Dict.get?_set, Dict.get?_set]
          split
          · rfl
          · rfl
      rw [hget] at h
      exact h
    · -- the label cannot be read, and only the time has changed
      have hnew : Fits id { n with ts := if n.ts.lt ts then ts else n.ts } := by
        cases id <;> exact hn
      refine ⟨put_spec hl hends hidx hnew (fun p x hx => ?_) (Dict.get?_set g.nodes id _)
        (fun p x => ?_) hidx.once, hb.maxNodes, hb.maxEdges, ?_, hb.edges⟩
      · rcases hcur p x hx with h | ⟨hid, hp, hkind, hinfo⟩
        · exact Or.inl h
        · exact Or.inr ⟨hid, hp, nodePid_of_fits hfits hnew hp (nodePid_eq_some.mpr ⟨hkind, hinfo⟩)⟩
      · split
        · rename_i hx
          rw [hx, hidx.index]
          constructor
          · rintro ⟨n', hn', hp⟩
            rw [hget] at hn'
            rw [← Option.some.inj hn'] at hp
            exact hp
          · exact fun hp => ⟨n, hget, hp⟩
        · rfl
      · dsimp only
        rw [hsize]
        exact hb.nodes

/-! ### A process -/

/-- The node that a PID stands for, or would stand for, fits the PID. -/
theorem fits_resolved (h : Current g) (hidx : Indexed g) (p : ℤ) (label : Label) (ts : PyFloat)
    (info : Meta) (hinfo : info.pid = some p) :
    Fits ((g.latestPidNode.get? p).getD (pidId p)) ⟨.proc, label, ts, info⟩ := by
  rcases hlatest : g.latestPidNode.get? p with _ | x
  · rw [Option.getD_none, pidId]
    split
    · rename_i hlong
      exact ⟨rfl, p, hinfo, hlong⟩
    · rename_i hshort
      exact ⟨rfl, hinfo, by simpa using hshort⟩
  · rw [Option.getD_some]
    obtain ⟨hp, n, hn, hnp⟩ := h p x hlatest
    obtain ⟨hkind, hpid⟩ := nodePid_eq_some.mp hnp
    have hfits := hidx.fits x n hn
    cases x with
    | pid q =>
      rw [hfits.2.1] at hpid
      exact ⟨rfl, hinfo.trans hpid.symm, hfits.2.2⟩
    | life q token =>
      rw [hfits.2.1] at hpid
      exact ⟨rfl, hinfo.trans hpid.symm, hfits.2.2⟩
    | unknown =>
      obtain ⟨-, q, hq, hlong⟩ := hfits
      rw [hq] at hpid
      rw [Option.some.inj hpid, hp] at hlong
      cases hlong
    | file path =>
      rw [show n.kind = .fim from hfits] at hkind
      cases hkind
    | net address =>
      rw [show n.kind = .net from hfits] at hkind
      cases hkind

theorem touchProcess_spec (h : Sound most mostEdges g) {ev : Event} (event : Str) {p : ℤ} {parent : Bool}
    (hnamed : ∀ raw, rawIdentity m ev parent = some (some raw) → tooLong p = false →
      processLabel ev p parent ≠ none) :
    wp (touchProcess m ev event p parent) (fun _ => Sound most mostEdges) (fun _ => Sound most mostEdges) g := by
  rw [touchProcess, wp_bind, processNodeId, wp_bind, wp_demand]
  refine ⟨fun identity hidentity => ?_, fun _ => h⟩
  rcases identity with _ | raw
  · dsimp only
    rw [wp_bind, wp_read, wp_pure]
    dsimp only
    rw [wp_bind, wp_demand]
    refine ⟨fun label _ => ?_, fun _ => h⟩
    rw [wp_bind]
    refine wp_mono (addNode_spec h.whole.linked h.whole.ends h.whole.indexed h.bounded event
      (fits_resolved h.whole.current h.whole.indexed p _ _ _ rfl)
      fun q x hx => Or.inl (h.whole.current q x hx)) ?_ ?_
    · exact fun _ g' hg' => hg'
    · exact fun _ g' hg' => hg'
  · dsimp only
    rw [wp_bind, wp_check]
    refine ⟨fun hshort => ?_, fun _ => h⟩
    rw [wp_bind, wp_modify, wp_pure]
    dsimp only
    rw [wp_bind, wp_demand]
    refine ⟨fun label _ => ?_, fun hnone => absurd hnone (hnamed raw hidentity hshort)⟩
    rw [wp_bind]
    have hl : ∀ latest, Linked { g with latestPidNode := latest } := fun _ =>
      ⟨h.whole.linked.edges_iff, h.whole.linked.parents_iff, h.whole.linked.once,
        h.whole.linked.children, h.whole.linked.ancestors, h.whole.linked.acyclic⟩
    have hfits : ∀ label ts info, info.pid = some p →
        Fits (.life p (m.token ((strip raw).take 512))) ⟨.proc, label, ts, info⟩ :=
      fun _ _ _ hinfo => ⟨rfl, hinfo, hshort⟩
    refine wp_mono (addNode_spec (hl (g.latestPidNode.set p _)) h.whole.ends ⟨h.whole.indexed.index, h.whole.indexed.once,
      h.whole.indexed.fits⟩ ⟨h.bounded.maxNodes, h.bounded.maxEdges, h.bounded.nodes, h.bounded.edges⟩ event (hfits _ _ _ rfl)
      fun q x hx => ?_) ?_ ?_
    · dsimp only at hx
      rw [Dict.get?_set] at hx
      split at hx
      · rename_i hq
        rw [hq, ← Option.some.inj hx]
        exact Or.inr ⟨rfl, hshort, rfl, rfl⟩
      · exact Or.inl (h.whole.current q x hx)
    · exact fun _ g' hg' => hg'
    · exact fun _ g' hg' => hg'

/-! ### Links and artifacts -/

theorem link_spec (h : Sound most mostEdges g) (parent child : NodeId) :
    wp (link parent child) (fun _ => Sound most mostEdges) (fun _ => Sound most mostEdges) g := by
  obtain ⟨hmost, hmostEdges, hnodes, hedges⟩ := h.bounded
  obtain ⟨g', hg', hl, hends, hsame, hlength⟩ :=
    addEdge_spec h.whole.linked h.whole.ends (hmostEdges ▸ hedges) parent child
  rw [link, wp_bind, wp_read, wp_bind, wp_demand]
  refine ⟨fun g'' hg'' => ?_, fun hnone => ?_⟩
  · rw [hg'] at hg''
    rw [wp_modify, ← Option.some.inj hg'']
    rw [hsame.maxEdges, hmostEdges] at hlength
    refine ⟨⟨hl, hends, ⟨fun p x => ?_, fun p => ?_, fun x n hx => ?_⟩, fun p x hx => ?_⟩,
      hsame.maxNodes.trans hmost, hsame.maxEdges.trans hmostEdges, ?_, hlength⟩
    · rw [hsame.pids, hsame.nodes]
      exact h.whole.indexed.index p x
    · rw [hsame.pids]
      exact h.whole.indexed.once p
    · rw [hsame.nodes] at hx
      exact h.whole.indexed.fits x n hx
    · rw [hsame.latest] at hx
      obtain ⟨hp, n, hn, hnp⟩ := h.whole.current p x hx
      exact ⟨hp, n, by rw [hsame.nodes]; exact hn, hnp⟩
    · rw [hsame.nodes]
      exact hnodes
  · rw [hg'] at hnone
    cases hnone

theorem touchArtifact_spec (h : Sound most mostEdges g) (ev : Event) (event : Str) (process : NodeId)
    (keys : List String) {kind : Kind} {name : Str → NodeId}
    (hname : ∀ text label ts info, Fits (name text) ⟨kind, label, ts, info⟩) :
    wp (touchArtifact m ev event process keys kind name) (fun _ => Sound most mostEdges) (fun _ => Sound most mostEdges) g := by
  rw [touchArtifact]
  split
  · exact h
  · rw [wp_bind, wp_demand]
    refine ⟨fun truthy _ => ?_, fun _ => h⟩
    rw [wp_ite]
    refine ⟨fun _ => ?_, fun _ => h⟩
    rw [wp_bind, wp_demand]
    refine ⟨fun text _ => ?_, fun _ => h⟩
    rw [wp_bind]
    refine wp_mono (addNode_spec h.whole.linked h.whole.ends h.whole.indexed h.bounded event
      (hname text _ _ _) fun q x hx => Or.inl (h.whole.current q x hx)) ?_ ?_
    · exact fun _ g' hg' => link_spec hg' process (name text)
    · exact fun _ g' hg' => hg'

/-! ### An event -/

/-- The processes that an event is about, and whether one is the parent. -/
def Event.processes (ev : Event) : List (ℤ × Bool) :=
  match ev.digest, firstInt ev.details pidKeys, firstInt ev.details ppidKeys with
  | some _, some pid, some ppid =>
    match pid.or ev.messagePid with
    | none => []
    | some p => (p, false) :: (ppid.map fun pp => (pp, true)).toList
  | _, _, _ => []

/-- Where an event gives a lifetime of a process, the image of the process is a text, or is not
    looked at. -/
def Named (m : Machine) (ev : Event) : Prop :=
  ∀ q ∈ ev.processes, ∀ raw, rawIdentity m ev q.2 = some (some raw) → tooLong q.1 = false →
    processLabel ev q.1 q.2 ≠ none

theorem ingest_spec (h : Sound most mostEdges g) {ev : Event} (hnamed : Named m ev) :
    wp (ingest m ev) (fun _ => Sound most mostEdges) (fun _ => Sound most mostEdges) g := by
  rw [ingest, wp_bind, wp_demand]
  refine ⟨fun event hevent => ?_, fun _ => h⟩
  rw [wp_bind, wp_demand]
  refine ⟨fun pid hpid => ?_, fun _ => h⟩
  rw [wp_bind, wp_demand]
  refine ⟨fun ppid hppid => ?_, fun _ => h⟩
  have hprocesses : ev.processes = match pid.or ev.messagePid with
      | none => []
      | some p => (p, false) :: (ppid.map fun pp => (pp, true)).toList := by
    rw [Event.processes, hevent, hpid, hppid]
  rcases hp : pid.or ev.messagePid with _ | p
  · exact h
  · rw [hp] at hprocesses
    dsimp only at hprocesses ⊢
    have hartifacts : ∀ (process : NodeId) (g' : Graph), Sound most mostEdges g' →
        wp (touchArtifact m ev event process pathKeys .fim .file >>= fun _ =>
          touchArtifact m ev event process netKeys .net .net) (fun _ => Sound most mostEdges) (fun _ => Sound most mostEdges) g' := by
      intro process g' hg'
      rw [wp_bind]
      refine wp_mono (touchArtifact_spec hg' ev event process pathKeys fun _ _ _ _ => rfl) ?_ ?_
      · exact fun _ g'' hg'' => touchArtifact_spec hg'' ev event process netKeys fun _ _ _ _ => rfl
      · exact fun _ g'' hg'' => hg''
    rw [wp_bind]
    refine wp_mono (touchProcess_spec h event (hnamed (p, false)
      (by rw [hprocesses]; exact List.mem_cons_self))) ?_ ?_
    · intro process g' hg'
      rcases ppid with _ | pp
      · exact hartifacts process g' hg'
      · dsimp only
        rw [wp_bind]
        refine wp_mono (touchProcess_spec hg' event (hnamed (pp, true)
          (by rw [hprocesses]; exact List.mem_cons_of_mem _ List.mem_cons_self))) ?_ ?_
        · intro parent g'' hg''
          rw [wp_bind]
          refine wp_mono (link_spec hg'' parent process) ?_ ?_
          · exact fun _ g₃ hg₃ => hartifacts process g₃ hg₃
          · exact fun _ g₃ hg₃ => hg₃
        · exact fun _ g'' hg'' => hg''
    · exact fun _ g' hg' => hg'

/-! ### Runs -/

/-- An event is ingested, or raises on the way. -/
def Step (m : Machine) (g : Graph) (ev : Event) (g' : Graph) : Prop := (ingest m ev g).2 = g'

theorem sound_new (maxNodes maxEdges : ℤ) :
    Sound (max 1 maxNodes).toNat (max 1 maxEdges).toNat (.new maxNodes maxEdges) where
  whole := {
    linked := {
      edges_iff := fun p c => iff_of_false List.not_mem_nil List.not_mem_nil
      parents_iff := fun p c => iff_of_false List.not_mem_nil List.not_mem_nil
      once := List.nodup_nil
      children := fun _ => List.nodup_nil
      ancestors := fun _ => List.nodup_nil
      acyclic := fun x hx => by
        obtain ⟨y, hy, -⟩ := TransGen.head'_iff.mp hx
        exact List.not_mem_nil hy }
    ends := fun p c hpc => absurd hpc List.not_mem_nil
    indexed := {
      index := fun p x => by
        refine iff_of_false List.not_mem_nil ?_
        rintro ⟨n, hn, -⟩
        cases hn
      once := fun _ => List.nodup_nil
      fits := fun x n hx => by cases hx }
    current := fun p x hx => by cases hx }
  bounded := ⟨rfl, rfl, Nat.zero_le _, Nat.zero_le _⟩

theorem run_sound {maxNodes maxEdges : ℤ} {evs : List Event}
    (hrun : Run (Guarded (fun _ ev => Named m ev) (Step m)) (.new maxNodes maxEdges) evs g) :
    Sound (max 1 maxNodes).toNat (max 1 maxEdges).toNat g := by
  refine hrun.invariant (I := Sound _ _) ?_ (sound_new maxNodes maxEdges)
  rintro g ev g' hg ⟨hnamed, hstep⟩
  rw [← hstep]
  exact wp_state (ingest_spec hg hnamed)

end Angerona.Provenance
