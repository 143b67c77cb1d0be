import Mathlib
import Angerona.Provenance.Model

/-!
    The edges of the provenance graph: `edges`, `parents` and the order of the edges describe one set
    of edges, which has no cycle and joins nodes that are there. -/

namespace Angerona.Provenance
open Text PyJson Effect Reach Relation

/-- There is an edge. -/
def Graph.Edge (g : Graph) (parent child : NodeId) : Prop := (parent, child) ∈ g.edgeOrder

/-- The three views of the edges agree, and there is no cycle. -/
structure Linked (g : Graph) : Prop where
  edges_iff : ∀ p c, c ∈ g.edges.members p ↔ g.Edge p c
  parents_iff : ∀ p c, p ∈ g.parents.members c ↔ g.Edge p c
  once : g.edgeOrder.Nodup
  children : ∀ p, (g.edges.members p).Nodup
  ancestors : ∀ c, (g.parents.members c).Nodup
  acyclic : ∀ x, ¬TransGen g.Edge x x

/-- Every edge joins two nodes that are there. -/
def Ends (g : Graph) : Prop :=
  ∀ p c, g.Edge p c → (g.nodes.get? p).isSome = true ∧ (g.nodes.get? c).isSome = true

/-- What an operation on the edges leaves alone. -/
structure SameNodes (g g' : Graph) : Prop where
  maxNodes : g'.maxNodes = g.maxNodes
  maxEdges : g'.maxEdges = g.maxEdges
  nodes : g'.nodes = g.nodes
  latest : g'.latestPidNode = g.latestPidNode
  pids : g'.pidNodes = g.pidNodes

theorem SameNodes.refl (g : Graph) : SameNodes g g := ⟨rfl, rfl, rfl, rfl, rfl⟩

theorem SameNodes.trans {g g' g'' : Graph} (h : SameNodes g g') (h' : SameNodes g' g'') :
    SameNodes g g'' :=
  ⟨h'.maxNodes.trans h.maxNodes, h'.maxEdges.trans h.maxEdges, h'.nodes.trans h.nodes,
    h'.latest.trans h.latest, h'.pids.trans h.pids⟩

theorem same_discardEdge (g : Graph) (p c : NodeId) : SameNodes g (g.discardEdge p c) :=
  ⟨rfl, rfl, rfl, rfl, rfl⟩

/-- Fewer edges make no cycle. -/
theorem acyclic_mono {g g' : Graph} (h : ∀ p c, g'.Edge p c → g.Edge p c)
    (hacyclic : ∀ x, ¬TransGen g.Edge x x) (x : NodeId) : ¬TransGen g'.Edge x x :=
  fun hx => hacyclic x (TransGen.mono h _ _ hx)

/-! ### Discarding -/

theorem mem_discardEdge {g : Graph} {p c x y : NodeId} :
    (g.discardEdge p c).Edge x y ↔ g.Edge x y ∧ ¬(x = p ∧ y = c) := by
  rw [Graph.Edge, Graph.Edge, Graph.discardEdge, List.mem_filter, decide_eq_true_iff, ne_eq,
    Prod.mk.injEq]

theorem linked_discardEdge {g : Graph} (h : Linked g) (p c : NodeId) :
    Linked (g.discardEdge p c) where
  edges_iff x y := by
    rw [mem_discardEdge, ← h.edges_iff]
    exact Dict.mem_discard
  parents_iff x y := by
    rw [mem_discardEdge, ← h.parents_iff, and_comm (a := x = p)]
    exact Dict.mem_discard
  once := h.once.filter _
  children := Dict.nodup_discard h.children
  ancestors := Dict.nodup_discard h.ancestors
  acyclic := acyclic_mono (fun _ _ hxy => (mem_discardEdge.mp hxy).1) h.acyclic

/-- Some edges are discarded one after another. -/
theorem foldl_discard (es : List (NodeId × NodeId)) : ∀ {g : Graph}, Linked g →
    Linked (es.foldl (fun g e => g.discardEdge e.1 e.2) g) ∧
      SameNodes g (es.foldl (fun g e => g.discardEdge e.1 e.2) g) ∧
      (es.foldl (fun g e => g.discardEdge e.1 e.2) g).edgeOrder.length ≤ g.edgeOrder.length ∧
      ∀ x y, (es.foldl (fun g e => g.discardEdge e.1 e.2) g).Edge x y ↔ g.Edge x y ∧ (x, y) ∉ es := by
  induction es with
  | nil =>
    intro g h
    exact ⟨h, .refl g, le_rfl, fun x y => by simp⟩
  | cons e es ih =>
    intro g h
    obtain ⟨hlinked, hsame, hlength, hedges⟩ := ih (linked_discardEdge h e.1 e.2)
    refine ⟨hlinked, (same_discardEdge g e.1 e.2).trans hsame,
      hlength.trans (List.length_filter_le _ _), fun x y => ?_⟩
    rw [List.foldl_cons, hedges, mem_discardEdge, List.mem_cons, not_or, Prod.ext_iff, and_assoc]

/-- The links of a node are dropped. -/
theorem drop_links {g : Graph} (h : Linked g) (id : NodeId) :
    let g₁ := (g.edges.members id).foldl (fun g child => g.discardEdge id child) g
    let g₂ := (g₁.parents.members id).foldl (fun g parent => g.discardEdge parent id) g₁
    Linked g₂ ∧ SameNodes g g₂ ∧ g₂.edgeOrder.length ≤ g.edgeOrder.length ∧
      ∀ x y, g₂.Edge x y ↔ g.Edge x y ∧ x ≠ id ∧ y ≠ id := by
  intro g₁ g₂
  have h₁ : g₁ = ((g.edges.members id).map fun c => (id, c)).foldl
      (fun g e => g.discardEdge e.1 e.2) g := by
    rw [List.foldl_map]
  have h₂ : g₂ = ((g₁.parents.members id).map fun p => (p, id)).foldl
      (fun g e => g.discardEdge e.1 e.2) g₁ := by
    rw [List.foldl_map]
  obtain ⟨hlinked₁, hsame₁, hlength₁, hedges₁⟩ :=
    foldl_discard ((g.edges.members id).map fun c => (id, c)) h
  rw [← h₁] at hlinked₁ hsame₁ hlength₁ hedges₁
  obtain ⟨hlinked₂, hsame₂, hlength₂, hedges₂⟩ :=
    foldl_discard ((g₁.parents.members id).map fun p => (p, id)) hlinked₁
  rw [← h₂] at hlinked₂ hsame₂ hlength₂ hedges₂
  refine ⟨hlinked₂, hsame₁.trans hsame₂, hlength₂.trans hlength₁, fun x y => ?_⟩
  rw [hedges₂, hedges₁]
  constructor
  · rintro ⟨⟨hxy, hchild⟩, hparent⟩
    have hx : x ≠ id := by
      rintro rfl
      exact hchild (List.mem_map.mpr ⟨y, (h.edges_iff x y).mpr hxy, rfl⟩)
    refine ⟨hxy, hx, ?_⟩
    rintro rfl
    exact hparent (List.mem_map.mpr ⟨x, (hlinked₁.parents_iff x y).mpr
      ((hedges₁ x y).mpr ⟨hxy, hchild⟩), rfl⟩)
  · rintro ⟨hxy, hx, hy⟩
    refine ⟨⟨hxy, fun hmem => ?_⟩, fun hmem => ?_⟩
    · obtain ⟨c, -, hc⟩ := List.mem_map.mp hmem
      exact hx (Prod.mk.inj hc).1.symm
    · obtain ⟨p, -, hp⟩ := List.mem_map.mp hmem
      exact hy (Prod.mk.inj hp).2.symm

/-! ### Trimming -/

theorem trimEdges_spec : ∀ (n : ℕ) {g : Graph}, Linked g → g.edgeOrder.length ≤ n + g.maxEdges →
    Linked (g.trimEdges n) ∧ SameNodes g (g.trimEdges n) ∧
      (g.trimEdges n).edgeOrder.length ≤ g.maxEdges ∧
      ∀ x y, (g.trimEdges n).Edge x y → g.Edge x y
  | 0, g, h, hn => ⟨h, .refl g, by rw [Graph.trimEdges]; omega, fun _ _ hxy => hxy⟩
  | n + 1, g, h, hn => by
    rw [Graph.trimEdges]
    split
    · rename_i hlt
      split
      · rename_i hnone
        rw [hnone] at hlt
        exact absurd hlt (by simp)
      · rename_i p c rest horder
        have hlength : (g.discardEdge p c).edgeOrder.length + 1 ≤ g.edgeOrder.length := by
          refine Nat.succ_le_of_lt (List.length_filter_lt_length_iff_exists.mpr ⟨(p, c), ?_, ?_⟩)
          · rw [horder]
            exact List.mem_cons_self
          · simp
        obtain ⟨hlinked, hsame, hle, hedges⟩ := trimEdges_spec n (linked_discardEdge h p c)
          (by show _ ≤ n + g.maxEdges; omega)
        exact ⟨hlinked, (same_discardEdge g p c).trans hsame, hle,
          fun x y hxy => (mem_discardEdge.mp (hedges x y hxy)).1⟩
    · rename_i hle
      exact ⟨h, .refl g, by omega, fun _ _ hxy => hxy⟩

/-! ### Adding -/

/-- The walk over the ancestors ends, and finds what lies a step or more above. -/
theorem ancestorIds_spec {g : Graph} (h : Linked g) (hends : Ends g) (id : NodeId) :
    ∃ r, g.ancestorIds id = some r ∧ ∀ z, z ∈ r ↔ TransGen g.Edge z id := by
  have hnext : ∀ a b, Next g.parents.members a b ↔ g.Edge b a := fun a b => h.parents_iff b a
  have hclosed : Closed g.parents.members (g.nodes.items.map Prod.fst).toFinset := by
    intro x _ y hy
    rw [List.mem_toFinset, Dict.mem_keys]
    exact (hends y x ((h.parents_iff y x).mp hy)).1
  have hstack : ∀ x ∈ g.parents.members id, x ∈ (g.nodes.items.map Prod.fst).toFinset := by
    intro x hx
    rw [List.mem_toFinset, Dict.mem_keys]
    exact (hends x id ((h.parents_iff x id).mp hx)).1
  have hone : (g.parents.members id).length ≤ g.edgeOrder.length := by
    have hsub : ((g.parents.members id).map fun p => (p, id)) ⊆ g.edgeOrder := by
      intro e he
      obtain ⟨p, hp, rfl⟩ := List.mem_map.mp he
      exact (h.parents_iff p id).mp hp
    have hnodup : ((g.parents.members id).map fun p => (p, id)).Nodup :=
      (h.ancestors id).map fun a b hab => (Prod.mk.inj hab).1
    simpa using (hnodup.subperm hsub).length_le
  have hall : ∑ x ∈ (g.nodes.items.map Prod.fst).toFinset.filter (· ∉ ([] : List NodeId)),
      (g.parents.members x).length ≤ g.edgeOrder.length := by
    calc ∑ x ∈ (g.nodes.items.map Prod.fst).toFinset.filter (· ∉ ([] : List NodeId)),
        (g.parents.members x).length
        = ∑ x ∈ (g.nodes.items.map Prod.fst).toFinset.filter (· ∉ ([] : List NodeId)),
            (g.parents.members x).toFinset.card :=
          Finset.sum_congr rfl fun x _ => (List.toFinset_card_of_nodup (h.ancestors x)).symm
      _ = (((g.nodes.items.map Prod.fst).toFinset.filter (· ∉ ([] : List NodeId))).sigma
            fun x => (g.parents.members x).toFinset).card := (Finset.card_sigma _ _).symm
      _ ≤ g.edgeOrder.toFinset.card := by
          refine Finset.card_le_card_of_injOn (fun s => (s.2, s.1)) (fun s hs => ?_) ?_
          · have hmem := (Finset.mem_sigma.mp hs).2
            rw [List.mem_toFinset] at hmem
            rw [Finset.mem_coe, List.mem_toFinset]
            exact (h.parents_iff _ _).mp hmem
          · intro s _ t _ hst
            obtain ⟨h2, h1⟩ := Prod.mk.inj hst
            exact Sigma.ext h1 (heq_of_eq h2)
      _ ≤ g.edgeOrder.length := List.toFinset_card_le _
  have hfuel : steps g.parents.members (g.nodes.items.map Prod.fst).toFinset
      (g.parents.members id) [] ≤ 2 * g.edgeOrder.length := by
    rw [steps]
    omega
  obtain ⟨r, hr⟩ := search_returns hclosed hstack hfuel
  refine ⟨r, hr, fun z => ?_⟩
  rw [search_successors hr z, ← transGen_swap]
  constructor
  · exact fun hz => TransGen.mono (fun a b hab => (hnext b a).mp hab) _ _ hz
  · exact fun hz => TransGen.mono (fun a b hab => (hnext b a).mpr hab) _ _ hz

theorem addEdge_spec {g : Graph} (h : Linked g) (hends : Ends g)
    (hbound : g.edgeOrder.length ≤ g.maxEdges) (p c : NodeId) :
    ∃ g', g.addEdge p c = some g' ∧ Linked g' ∧ Ends g' ∧ SameNodes g g' ∧
      g'.edgeOrder.length ≤ g'.maxEdges := by
  rw [Graph.addEdge]
  split
  · exact ⟨g, rfl, h, hends, .refl g, hbound⟩
  · rename_i hfit
    rw [not_or, not_or, Bool.not_eq_true, Bool.not_eq_true, Option.isNone_eq_false_iff,
      Option.isNone_eq_false_iff] at hfit
    obtain ⟨hne, hp, hc⟩ := hfit
    split
    · rename_i hold
      have hin : g.Edge p c := (h.edges_iff p c).mp (by simpa using hold)
      have hsame : ∀ x y, (x, y) ∈ g.edgeOrder.filter (· ≠ (p, c)) ++ [(p, c)] ↔ g.Edge x y := by
        intro x y
        rw [List.mem_append, List.mem_filter, decide_eq_true_iff, List.mem_singleton, Graph.Edge]
        constructor
        · rintro (⟨hxy, -⟩ | hxy)
          · exact hxy
          · rw [hxy]
            exact hin
        · intro hxy
          by_cases hpc : (x, y) = (p, c)
          · exact Or.inr hpc
          · exact Or.inl ⟨hxy, hpc⟩
      refine ⟨_, rfl, ⟨fun x y => (h.edges_iff x y).trans (hsame x y).symm,
        fun x y => (h.parents_iff x y).trans (hsame x y).symm, ?_, h.children, h.ancestors,
        acyclic_mono (fun x y => (hsame x y).mp) h.acyclic⟩, fun x y hxy =>
          hends x y ((hsame x y).mp hxy), ⟨rfl, rfl, rfl, rfl, rfl⟩, ?_⟩
      · refine List.nodup_append.mpr ⟨h.once.filter _, List.nodup_singleton _, ?_⟩
        rintro a ha b hb rfl
        rw [List.mem_singleton.mp hb] at ha
        simpa using (List.mem_filter.mp ha).2
      · have hlt : (g.edgeOrder.filter (· ≠ (p, c))).length < g.edgeOrder.length :=
          List.length_filter_lt_length_iff_exists.mpr ⟨(p, c), hin, by simp⟩
        change (g.edgeOrder.filter (· ≠ (p, c)) ++ [(p, c)]).length ≤ g.maxEdges
        rw [List.length_append, List.length_singleton]
        omega
    · rename_i hnew
      obtain ⟨r, hr, hmem⟩ := ancestorIds_spec h hends p
      rw [hr, Option.map_some]
      by_cases hcycle : c ∈ r
      · rw [if_pos (by simpa using hcycle)]
        exact ⟨g, rfl, h, hends, .refl g, hbound⟩
      · rw [if_neg (by simpa using hcycle)]
        have hnotin : ¬g.Edge p c := fun hin => hnew (by simpa using (h.edges_iff p c).mpr hin)
        have hback : ¬ReflTransGen g.Edge c p := by
          intro hcp
          rcases reflTransGen_iff_eq_or_transGen.mp hcp with heq | htrans
          · exact hne heq
          · exact hcycle ((hmem c).mpr htrans)
        have hin : ∀ x y, (x, y) ∈ g.edgeOrder ++ [(p, c)] ↔ g.Edge x y ∨ x = p ∧ y = c := by
          intro x y
          rw [List.mem_append, List.mem_singleton, Prod.mk.injEq, Graph.Edge]
        have hlinked : Linked { g with
            edges := g.edges.addMember p c
            parents := g.parents.addMember c p
            edgeOrder := g.edgeOrder ++ [(p, c)] } := by
          refine ⟨fun x y => ?_, fun x y => ?_, ?_, Dict.nodup_addMember h.children,
            Dict.nodup_addMember h.ancestors, fun x hx => ?_⟩
          · exact (Dict.mem_addMember.trans (or_congr (h.edges_iff x y) Iff.rfl)).trans (hin x y).symm
          · refine (Dict.mem_addMember.trans (or_congr (h.parents_iff x y) ?_)).trans (hin x y).symm
            exact and_comm
          · refine List.nodup_append.mpr ⟨h.once, List.nodup_singleton _, ?_⟩
            rintro a ha b hb rfl
            rw [List.mem_singleton.mp hb] at ha
            exact hnotin ha
          · exact acyclic_insert h.acyclic hback x (TransGen.mono (fun a b hab => (hin a b).mp hab) _ _ hx)
        obtain ⟨htrim, hsame, hlength, hsub⟩ := trimEdges_spec (g.edgeOrder ++ [(p, c)]).length hlinked
          (by show _ ≤ _ + g.maxEdges; dsimp only; omega)
        have hrest : SameNodes g _ := ⟨hsame.maxNodes, hsame.maxEdges, hsame.nodes, hsame.latest,
          hsame.pids⟩
        refine ⟨_, rfl, htrim, fun x y hxy => ?_, hrest, ?_⟩
        · rw [hsame.nodes]
          rcases (hin x y).mp (hsub x y hxy) with hxy | ⟨rfl, rfl⟩
          · exact hends x y hxy
          · exact ⟨hp, hc⟩
        · rw [hsame.maxEdges]
          exact hlength

end Angerona.Provenance
