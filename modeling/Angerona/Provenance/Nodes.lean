import Mathlib
import Angerona.Provenance.Edges

/-!
    The nodes of the provenance graph: the index by PID lists the process nodes of a PID, and the
    node that a PID stands for is one of them. -/

namespace Angerona.Provenance
open Text PyJson Effect Reach Relation

/-- What the key of a node says of it. -/
def Fits : NodeId → Node → Prop
  | .pid p, n => n.kind = .proc ∧ n.info.pid = some p ∧ tooLong p = false
  | .life p _, n => n.kind = .proc ∧ n.info.pid = some p ∧ tooLong p = false
  | .unknown, n => n.kind = .proc ∧ ∃ p, n.info.pid = some p ∧ tooLong p = true
  | .file _, n => n.kind = .fim
  | .net _, n => n.kind = .net

/-- The index by PID is exact. -/
structure Indexed (g : Graph) : Prop where
  index : ∀ p id, id ∈ g.pidNodes.members p ↔ ∃ n, g.nodes.get? id = some n ∧ n.nodePid = some p
  once : ∀ p, (g.pidNodes.members p).Nodup
  fits : ∀ id n, g.nodes.get? id = some n → Fits id n

/-- A node of the PID that is there. -/
def Names (g : Graph) (p : ℤ) (id : NodeId) : Prop :=
  tooLong p = false ∧ ∃ n, g.nodes.get? id = some n ∧ n.nodePid = some p

/-- What a PID stands for is a node of the PID that is there. -/
def Current (g : Graph) : Prop := ∀ p id, g.latestPidNode.get? p = some id → Names g p id

/-- The graph is as its operations expect it. -/
structure Whole (g : Graph) : Prop where
  linked : Linked g
  ends : Ends g
  indexed : Indexed g
  current : Current g

/-- The counts are within the bounds that were given. -/
structure Bounded (most mostEdges : ℕ) (g : Graph) : Prop where
  maxNodes : g.maxNodes = most
  maxEdges : g.maxEdges = mostEdges
  nodes : g.nodes.size ≤ most
  edges : g.edgeOrder.length ≤ mostEdges

/-! ### Keys and nodes -/

theorem nodePid_eq_some {n : Node} {p : ℤ} :
    n.nodePid = some p ↔ n.kind = .proc ∧ n.info.pid = some p := by
  rw [Node.nodePid]
  split
  · rename_i hkind
    simp [hkind]
  · rename_i hkind
    simp [hkind]

/-- Two nodes that fit a key are of one PID, unless the PID is too long to be written. -/
theorem nodePid_of_fits {id : NodeId} {n n' : Node} {p : ℤ} (h : Fits id n) (h' : Fits id n')
    (hp : tooLong p = false) (hn : n.nodePid = some p) : n'.nodePid = some p := by
  obtain ⟨hkind, hpid⟩ := nodePid_eq_some.mp hn
  rw [nodePid_eq_some]
  cases id with
  | pid q =>
    obtain ⟨-, hq, -⟩ := h
    rw [hpid] at hq
    rw [Option.some.inj hq]
    exact ⟨h'.1, h'.2.1⟩
  | life q token =>
    obtain ⟨-, hq, -⟩ := h
    rw [hpid] at hq
    rw [Option.some.inj hq]
    exact ⟨h'.1, h'.2.1⟩
  | unknown =>
    obtain ⟨-, q, hq, hlong⟩ := h
    rw [hpid] at hq
    rw [← Option.some.inj hq, hp] at hlong
    cases hlong
  | file path =>
    rw [show n.kind = .fim from h] at hkind
    cases hkind
  | net address =>
    rw [show n.kind = .net from h] at hkind
    cases hkind

theorem tooLong_zero : tooLong 0 = false := by decide

theorem given_same {α : Type} (truthy : α → Bool) (a : α) :
    given truthy (some a) (some a) = some a := by
  rw [given, Option.filter_some]
  split
  · rfl
  · rfl

/-- What an event adds to a node leaves its key fitting. -/
theorem fits_update {id : NodeId} {n : Node} {label label' : Label} {ts ts' : PyFloat} {kind : Kind}
    {info : Meta} (event : Str) (h : Fits id n) (h' : Fits id ⟨kind, label, ts, info⟩) :
    Fits id ⟨n.kind, label', ts', n.info.update info event⟩ := by
  have hpid : ∀ p, info.pid = some p → n.info.pid = some p →
      (n.info.update info event).pid = some p := by
    intro p hp hold
    rw [Meta.update, hp, hold]
    exact given_same _ p
  cases id with
  | pid q => exact ⟨h.1, hpid q h'.2.1 h.2.1, h.2.2⟩
  | life q token => exact ⟨h.1, hpid q h'.2.1 h.2.1, h.2.2⟩
  | unknown =>
    obtain ⟨-, p, hp, hlong⟩ := h'
    refine ⟨h.1, p, ?_, hlong⟩
    have hne : p ≠ 0 := by
      rintro rfl
      rw [tooLong_zero] at hlong
      cases hlong
    dsimp only at hp
    simp [Meta.update, given, hp, hne]
  | file path => exact h
  | net address => exact h

/-! ### Writing a node -/

/-- A node is written, and the index with it. -/
theorem put_spec {g : Graph} (hl : Linked g) (hends : Ends g) (hidx : Indexed g) {id : NodeId}
    {n : Node} (hfits : Fits id n)
    (hcur : ∀ p x, g.latestPidNode.get? p = some x →
      Names g p x ∨ x = id ∧ tooLong p = false ∧ n.nodePid = some p)
    {nodes : Dict NodeId Node} {pids : Dict ℤ (List NodeId)}
    (hnodes : ∀ x, nodes.get? x = if x = id then some n else g.nodes.get? x)
    (hpids : ∀ p x, x ∈ pids.members p ↔
      if x = id then n.nodePid = some p else x ∈ g.pidNodes.members p)
    (honce : ∀ p, (pids.members p).Nodup) : Whole { g with nodes := nodes, pidNodes := pids } where
  linked := ⟨hl.edges_iff, hl.parents_iff, hl.once, hl.children, hl.ancestors, hl.acyclic⟩
  ends p c hpc := by
    have hsome : ∀ x, (g.nodes.get? x).isSome = true → (nodes.get? x).isSome = true := by
      intro x hx
      rw [hnodes]
      split
      · rfl
      · exact hx
    exact ⟨hsome p (hends p c hpc).1, hsome c (hends p c hpc).2⟩
  indexed := by
    refine ⟨fun p x => ?_, honce, fun x n' hx => ?_⟩
    · dsimp only
      rw [hpids, hnodes]
      by_cases hx : x = id
      · simp [hx]
      · rw [if_neg hx, if_neg hx]
        exact hidx.index p x
    · dsimp only at hx
      rw [hnodes] at hx
      split at hx
      · rename_i hid
        rw [hid, ← Option.some.inj hx]
        exact hfits
      · exact hidx.fits x n' hx
  current p x hx := by
    rcases hcur p x hx with ⟨hp, n', hn', hpid⟩ | ⟨rfl, hp, hpid⟩
    · refine ⟨hp, ?_⟩
      dsimp only
      rw [hnodes]
      by_cases hid : x = id
      · subst hid
        exact ⟨n, by rw [if_pos rfl], nodePid_of_fits (hidx.fits x n' hn') hfits hp hpid⟩
      · exact ⟨n', by rw [if_neg hid]; exact hn', hpid⟩
    · refine ⟨hp, n, ?_, hpid⟩
      dsimp only
      rw [hnodes, if_pos rfl]

/-- The index after a node of the id was written. -/
theorem pids_spec {g : Graph} (hidx : Indexed g) (id : NodeId) (current : Option ℤ) :
    let previous := (g.nodes.get? id).bind Node.nodePid
    let pids := if previous = current then g.pidNodes else discardPid g.pidNodes previous id
    let pids' := current.elim pids fun p => pids.addMember p id
    (∀ p x, x ∈ pids'.members p ↔ if x = id then current = some p else x ∈ g.pidNodes.members p) ∧
      ∀ p, (pids'.members p).Nodup := by
  intro previous pids pids'
  have hold : ∀ p, id ∈ g.pidNodes.members p ↔ previous = some p := by
    intro p
    rw [hidx.index, Option.bind_eq_some_iff]
  have hpids : ∀ p x, x ∈ pids.members p ↔
      if x = id then previous = current ∧ current = some p else x ∈ g.pidNodes.members p := by
    intro p x
    by_cases hsame : previous = current
    · rw [show pids = g.pidNodes from if_pos hsame]
      split
      · rename_i hx
        rw [hx, hold, hsame, and_iff_right rfl]
      · rfl
    · rw [show pids = discardPid g.pidNodes previous id from if_neg hsame]
      rcases hprevious : previous with _ | q
      · rw [discardPid, Option.elim_none]
        split
        · rename_i hx
          rw [hx, hold, hprevious]
          refine iff_of_false (fun h => by cases h) fun h => hsame ?_
          rw [hprevious]
          exact h.1
        · rfl
      · rw [discardPid, Option.elim_some, Dict.mem_discard]
        split
        · rename_i hx
          rw [hx, hold, hprevious]
          refine iff_of_false (fun h => h.2 ⟨(Option.some.inj h.1).symm, rfl⟩) fun h => hsame ?_
          rw [hprevious]
          exact h.1
        · rename_i hx
          exact and_iff_left fun h => hx h.2
  have honce : ∀ p, (pids.members p).Nodup := by
    intro p
    by_cases hsame : previous = current
    · rw [show pids = g.pidNodes from if_pos hsame]
      exact hidx.once p
    · rw [show pids = discardPid g.pidNodes previous id from if_neg hsame]
      rcases previous with _ | q
      · exact hidx.once p
      · exact Dict.nodup_discard hidx.once p
  rcases hcurrent : current with _ | q
  · rw [show pids' = pids by rw [show pids' = current.elim pids _ from rfl, hcurrent]; rfl]
    refine ⟨fun p x => ?_, honce⟩
    rw [hpids, hcurrent]
    split
    · exact iff_of_false (fun h => by cases h.2) fun h => by cases h
    · rfl
  · rw [show pids' = pids.addMember q id by
      rw [show pids' = current.elim pids _ from rfl, hcurrent]; rfl]
    refine ⟨fun p x => ?_, Dict.nodup_addMember honce⟩
    rw [Dict.mem_addMember, hpids, hcurrent, Option.some.injEq]
    by_cases hx : x = id
    · rw [if_pos hx, if_pos hx]
      constructor
      · rintro (⟨-, hp⟩ | ⟨hp, -⟩)
        · exact hp
        · exact hp.symm
      · exact fun hp => Or.inr ⟨hp.symm, hx⟩
    · rw [if_neg hx, if_neg hx]
      exact or_iff_left fun h => hx h.2

/-! ### Retiring a node -/

variable {m : Machine}

/-- The latest of some candidates is one of them. -/
theorem latest_mem {cs : List (PyFloat × NodeId)} {x : NodeId} (h : latest m cs = some x) :
    ∃ t, (t, x) ∈ cs := by
  rcases cs with _ | ⟨c, cs⟩
  · cases h
  · have hmem : ∀ (cs : List (PyFloat × NodeId)) (best : PyFloat × NodeId),
        cs.foldl (fun best c =>
          if m.later (c.1, c.2.text) (best.1, best.2.text) then c else best) best ∈ best :: cs := by
      intro cs
      induction cs with
      | nil => exact fun best => List.mem_cons_self
      | cons c cs ih =>
        intro best
        rw [List.foldl_cons]
        split
        · exact List.mem_cons_of_mem _ (ih c)
        · rcases List.mem_cons.mp (ih best) with h | h
          · rw [h]
            exact List.mem_cons_self
          · exact List.mem_cons_of_mem _ (List.mem_cons_of_mem _ h)
    rw [latest] at h
    rw [← Option.some.inj h]
    exact ⟨_, hmem cs c⟩

/-- What dropping the links of a node leaves. -/
structure Dropped (g g' : Graph) (id : NodeId) (node : Node) : Prop where
  linked : Linked g'
  maxNodes : g'.maxNodes = g.maxNodes
  maxEdges : g'.maxEdges = g.maxEdges
  nodes : g'.nodes = g.nodes
  fewer : g'.edgeOrder.length ≤ g.edgeOrder.length
  edges : ∀ x y, g'.Edge x y ↔ g.Edge x y ∧ x ≠ id ∧ y ≠ id
  pids : g'.pidNodes = discardPid g.pidNodes node.nodePid id
  latest : ∀ p x, g'.latestPidNode.get? p = some x →
    g.latestPidNode.get? p = some x ∧ ¬(x = id ∧ node.nodePid = some p) ∨
      node.nodePid = some p ∧ g.latestPidNode.get? p = some id ∧ x ∈ g'.pidNodes.members p

theorem dropNodeLinks_spec {g : Graph} (h : Linked g) (id : NodeId) (node : Node) :
    Dropped g (g.dropNodeLinks m id node) id node := by
  have hdrop := drop_links h id
  rw [Graph.dropNodeLinks]
  dsimp only at hdrop ⊢
  generalize (((g.edges.members id).foldl (fun g child => g.discardEdge id child) g).parents.members
    id).foldl (fun g parent => g.discardEdge parent id) ((g.edges.members id).foldl
      (fun g child => g.discardEdge id child) g) = g₂ at hdrop ⊢
  obtain ⟨hl, hsame, hfewer, hedges⟩ := hdrop
  have hl' : ∀ pids latest, Linked { g₂ with pidNodes := pids, latestPidNode := latest } :=
    fun _ _ => ⟨hl.edges_iff, hl.parents_iff, hl.once, hl.children, hl.ancestors, hl.acyclic⟩
  rcases hpid : node.nodePid with _ | p
  · refine ⟨hl' _ _, hsame.maxNodes, hsame.maxEdges, hsame.nodes, hfewer, hedges, ?_, fun q x hx => ?_⟩
    · rw [hpid]
      exact hsame.pids
    · rw [hsame.latest] at hx
      refine Or.inl ⟨hx, fun hid => ?_⟩
      rw [hpid] at hid
      cases hid.2
  · dsimp only
    split
    · rename_i hlatest
      rw [hsame.latest] at hlatest
      split
      · rename_i c hc
        obtain ⟨t, ht⟩ := latest_mem hc
        obtain ⟨x, hx, hxc⟩ := List.mem_filterMap.mp ht
        obtain ⟨n, -, hn⟩ := Option.map_eq_some_iff.mp hxc
        obtain rfl := (Prod.mk.inj hn).2
        refine ⟨hl' _ _, hsame.maxNodes, hsame.maxEdges, hsame.nodes, hfewer, hedges, ?_,
          fun q y hy => ?_⟩
        · rw [hpid, ← hsame.pids]
        · dsimp only at hy ⊢
          rw [Dict.get?_set] at hy
          split at hy
          · rename_i hq
            rw [hpid, hq, ← Option.some.inj hy]
            exact Or.inr ⟨rfl, hlatest, hx⟩
          · rename_i hq
            rw [hsame.latest] at hy
            refine Or.inl ⟨hy, fun hid => hq ?_⟩
            rw [hpid] at hid
            exact (Option.some.inj hid.2).symm
      · refine ⟨hl' _ _, hsame.maxNodes, hsame.maxEdges, hsame.nodes, hfewer, hedges, ?_,
          fun q y hy => ?_⟩
        · rw [hpid, ← hsame.pids]
        · dsimp only at hy
          rw [Dict.get?_erase] at hy
          split at hy
          · cases hy
          · rename_i hq
            rw [hsame.latest] at hy
            refine Or.inl ⟨hy, fun hid => hq ?_⟩
            rw [hpid] at hid
            exact (Option.some.inj hid.2).symm
    · rename_i hlatest
      refine ⟨hl' _ _, hsame.maxNodes, hsame.maxEdges, hsame.nodes, hfewer, hedges, ?_,
        fun q y hy => ?_⟩
      · rw [hpid, ← hsame.pids]
      · rw [hsame.latest] at hlatest
        dsimp only at hy
        rw [hsame.latest] at hy
        refine Or.inl ⟨hy, ?_⟩
        rintro ⟨rfl, hid⟩
        rw [hpid] at hid
        rw [← Option.some.inj hid] at hy
        exact hlatest hy

/-- A node goes, with its edges and its place in the index. -/
theorem retire_spec {g : Graph} (h : Whole g) {id : NodeId} {node : Node}
    (hnode : g.nodes.get? id = some node) :
    Whole (({ g with nodes := g.nodes.erase id }).dropNodeLinks m id node) := by
  have hlinked : Linked { g with nodes := g.nodes.erase id } := ⟨h.linked.edges_iff,
    h.linked.parents_iff, h.linked.once, h.linked.children, h.linked.ancestors, h.linked.acyclic⟩
  have hdrop := dropNodeLinks_spec (m := m) hlinked id node
  generalize ({ g with nodes := g.nodes.erase id }).dropNodeLinks m id node = g' at hdrop ⊢
  obtain ⟨hl, hmaxNodes, hmaxEdges, hnodes, hfewer, hedges, hpids, hlatest⟩ := hdrop
  dsimp only at hnodes hpids
  have hget : ∀ x, g'.nodes.get? x = if x = id then none else g.nodes.get? x := by
    intro x
    rw [hnodes, Dict.get?_erase]
  -- what stands under a PID is what stood there, without the node
  have hmem : ∀ p x, x ∈ g'.pidNodes.members p ↔ x ∈ g.pidNodes.members p ∧ x ≠ id := by
    intro p x
    rw [hpids]
    rcases hpid : node.nodePid with _ | q
    · rw [discardPid, Option.elim_none]
      refine (and_iff_left_of_imp ?_).symm
      rintro hx rfl
      obtain ⟨n, hn, hnp⟩ := (h.indexed.index p x).mp hx
      rw [hnode] at hn
      rw [← Option.some.inj hn, hpid] at hnp
      cases hnp
    · rw [discardPid, Option.elim_some, Dict.mem_discard]
      refine and_congr_right fun hx => not_congr ?_
      refine and_iff_right_of_imp ?_
      rintro rfl
      obtain ⟨n, hn, hnp⟩ := (h.indexed.index p x).mp hx
      rw [hnode] at hn
      rw [← Option.some.inj hn, hpid] at hnp
      exact (Option.some.inj hnp).symm
  refine ⟨hl, fun p c hpc => ?_, ⟨fun p x => ?_, fun p => ?_, fun x n hx => ?_⟩, fun p x hx => ?_⟩
  · obtain ⟨hold, hp, hc⟩ := (hedges p c).mp hpc
    rw [hget, hget, if_neg hp, if_neg hc]
    exact h.ends p c hold
  · rw [hmem, hget, h.indexed.index]
    by_cases hid : x = id
    · simp [hid]
    · simp [hid]
  · rw [hpids]
    rcases node.nodePid with _ | q
    · exact h.indexed.once p
    · exact Dict.nodup_discard h.indexed.once p
  · rw [hget] at hx
    split at hx
    · cases hx
    · exact h.indexed.fits x n hx
  · rcases hlatest p x hx with ⟨hold, hne⟩ | ⟨hpid, hold, hin⟩
    · obtain ⟨hp, n, hn, hnp⟩ := h.current p x hold
      have hid : x ≠ id := by
        rintro rfl
        rw [hnode] at hn
        rw [← Option.some.inj hn] at hnp
        exact hne ⟨rfl, hnp⟩
      exact ⟨hp, n, by rw [hget, if_neg hid]; exact hn, hnp⟩
    · obtain ⟨hp, -⟩ := h.current p id hold
      obtain ⟨hin, hid⟩ := (hmem p x).mp hin
      obtain ⟨n, hn, hnp⟩ := (h.indexed.index p x).mp hin
      exact ⟨hp, n, by rw [hget, if_neg hid]; exact hn, hnp⟩

theorem trimNodes_spec {most mostEdges : ℕ} : ∀ (n : ℕ) {g : Graph}, Whole g → g.maxNodes = most →
    g.maxEdges = mostEdges → g.edgeOrder.length ≤ mostEdges → g.nodes.size ≤ n + most →
      Whole (g.trimNodes m n) ∧ Bounded most mostEdges (g.trimNodes m n)
  | 0, g, h, hmost, hmostEdges, hedges, hn =>
    ⟨h, hmost, hmostEdges, by rw [Graph.trimNodes]; omega, hedges⟩
  | n + 1, g, h, hmost, hmostEdges, hedges, hn => by
    rw [Graph.trimNodes]
    split
    · rename_i hlt
      split
      · rename_i hnone
        rw [Dict.size, hnone] at hlt
        exact absurd hlt (by simp)
      · rename_i retired node rest hitems
        have hnode : g.nodes.get? retired = some node :=
          Dict.mem_items.mp (hitems ▸ List.mem_cons_self)
        have hlinked : Linked { g with nodes := g.nodes.erase retired } := ⟨h.linked.edges_iff,
          h.linked.parents_iff, h.linked.once, h.linked.children, h.linked.ancestors,
          h.linked.acyclic⟩
        have hdrop := dropNodeLinks_spec (m := m) hlinked retired node
        have hsize := Dict.size_erase_lt (show (g.nodes.get? retired).isSome = true by rw [hnode]; rfl)
        refine trimNodes_spec n (retire_spec h hnode) (hdrop.maxNodes.trans hmost)
          (hdrop.maxEdges.trans hmostEdges) (hdrop.fewer.trans hedges) ?_
        rw [hdrop.nodes]
        dsimp only
        omega
    · rename_i hle
      exact ⟨h, hmost, hmostEdges, by omega, hedges⟩

end Angerona.Provenance
