import Angerona.Remediation.Custody

/-!
    What holds along every run of the remediation log.

    The invariant says which rows, claims and capabilities belong together: at most one row is
    unresolved, a live claim is on a row that needs recovery, and every row and every claim has one
    capability. Each of the five effects of a step carries it, and in a state that satisfies it the
    effects are the custody rules of the claim on every step. -/

namespace Angerona.Remediation
open Transition

/-! ### The invariant -/

/-- What holds in every reachable world. -/
structure Inv (w : World) : Prop where
  ids : (w.db.transactions.map (·.id)).Nodup
  bound : ∀ r ∈ w.db.transactions, r.id ≤ w.db.txSeq
  single : (w.db.transactions.filter (·.state.unresolved)).length ≤ 1
  claimIds : (w.db.claims.map (·.transactionId)).Nodup
  claimed : ∀ c ∈ w.db.claims, ∃ r ∈ w.db.transactions, r.id = c.transactionId ∧
    r.state = .recoveryRequired
  owners : w.ownerIds.Nodup
  ownerBound : ∀ id ∈ w.ownerIds, id ≤ w.db.txSeq
  owned : ∀ r ∈ w.db.transactions, r.id ∈ w.ownerIds
  recoveries : w.recoveryIds.Nodup
  recoveryBound : ∀ id ∈ w.recoveryIds, id ≤ w.db.txSeq
  recovered : ∀ id ∈ w.recoveryIds, (∃ c ∈ w.db.claims, c.transactionId = id) ∨
    ∀ r ∈ w.db.transactions, r.id = id → r.state.unresolved = false
  recoveryClaimed : ∀ c ∈ w.db.claims, c.transactionId ∈ w.recoveryIds

section Moves

variable {w w' : World} {p : TxRow → Bool} {before target : TxState}

theorem TxState.moves_unresolved (h : before.moves target = true) : before.unresolved = true := by
  cases before <;> first | rfl | simp [TxState.moves] at h

/-- A row that needs recovery can only end. -/
theorem TxState.moves_recovery (h : TxState.recoveryRequired.moves target = true) :
    target.unresolved = false := by
  cases target <;> first | rfl | simp [TxState.moves] at h

theorem Moved.ids (h : Moved p before target w w') :
    w'.db.transactions.map (·.id) = w.db.transactions.map (·.id) := by
  obtain ⟨f, hf, hrows⟩ := h.rows
  rw [hrows]
  exact Table.keys_update fun r _ _ => (hf r).1

/-- A row after a move was moved or is as before. -/
theorem Moved.mem (h : Moved p before target w w') {r' : TxRow} (hr : r' ∈ w'.db.transactions) :
    ∃ r ∈ w.db.transactions, r'.id = r.id ∧
      ((p r = true ∧ r.state = before ∧ r'.state = target) ∨ (p r = false ∧ r' = r)) := by
  obtain ⟨f, hf, hrows⟩ := h.rows
  rw [hrows] at hr
  obtain ⟨r, hmem, rfl⟩ := Table.mem_update.mp hr
  cases hp : p r with
  | true => exact ⟨r, hmem, (hf r).1, .inl ⟨hp, h.source r hp, (hf r).2⟩⟩
  | false => exact ⟨r, hmem, rfl, .inr ⟨hp, rfl⟩⟩

theorem Moved.keeps (h : Moved p before target w w') {r : TxRow} (hr : r ∈ w.db.transactions)
    (hp : p r = false) : r ∈ w'.db.transactions := by
  obtain ⟨f, hf, hrows⟩ := h.rows
  rw [hrows]
  exact Table.mem_update.mpr ⟨r, hr, by simp [hp]⟩

/-- A move leaves at most as many rows unresolved. -/
theorem Moved.unresolved_le (h : Moved p before target w w') :
    (w'.db.transactions.filter (·.state.unresolved)).length ≤
      (w.db.transactions.filter (·.state.unresolved)).length := by
  obtain ⟨f, hf, hrows⟩ := h.rows
  rw [hrows, Table.length_filter_eq_total, Table.length_filter_eq_total]
  refine Table.total_update_le fun r _ hp => ?_
  rw [h.source r hp, TxState.moves_unresolved h.moves]
  split <;> simp

end Moves

/-! ### Each effect carries it -/

namespace Inv

variable {P : Platform} {w w' : World} {c : Call}

theorem start : Inv World.start := by
  constructor <;> simp [World.start, Db.empty, World.ownerIds, World.recoveryIds]

theorem unmoved (hi : Inv w) (h : Unmoved w w') : Inv w' := by
  constructor <;> simp only [h.transactions, h.claims, h.txSeq, h.ownerIds, h.recoveryIds]
  exacts [hi.ids, hi.bound, hi.single, hi.claimIds, hi.claimed, hi.owners, hi.ownerBound, hi.owned,
    hi.recoveries, hi.recoveryBound, hi.recovered, hi.recoveryClaimed]

/-- With no row unresolved there is no claim. -/
theorem claims_nil (hi : Inv w) (hidle : ∀ r ∈ w.db.transactions, r.state.unresolved = false) :
    w.db.claims = [] := by
  refine List.eq_nil_iff_forall_not_mem.mpr fun c hc => ?_
  obtain ⟨r, hr, -, hstate⟩ := hi.claimed c hc
  have := hidle r hr
  rw [hstate] at this
  simp [TxState.unresolved] at this

theorem prepared (hi : Inv w) (h : Prepared w w') : Inv w' := by
  obtain ⟨kept, row, hkept, hid, hstate, hrows, howners⟩ := h.rows
  have hnil := hi.claims_nil h.idle
  have hbound : ∀ r ∈ kept, r.id ≤ w.db.txSeq := fun r hr => hi.bound r (hkept.subset hr)
  have hidle : ∀ r ∈ kept, r.state.unresolved = false := fun r hr => h.idle r (hkept.subset hr)
  constructor <;>
    simp only [hrows, h.claims, h.txSeq, howners, h.recoveryIds, hnil, List.map_append,
      List.filter_append, List.mem_append, List.mem_singleton, List.map_cons, List.map_nil]
  · refine List.nodup_append'.mpr ⟨hi.ids.sublist (hkept.map _), List.nodup_singleton _, ?_⟩
    rw [List.disjoint_singleton]
    intro hmem
    obtain ⟨r, hr, hrid⟩ := List.mem_map.mp hmem
    have := hbound r hr
    omega
  · rintro r (hr | rfl)
    · exact (hbound r hr).trans (Nat.le_succ _)
    · omega
  · rw [List.filter_eq_nil_iff.mpr fun r hr => by simp [hidle r hr]]
    exact List.length_filter_le _ _
  · exact List.nodup_nil
  · rintro c hc
    simp at hc
  · refine List.nodup_append'.mpr ⟨hi.owners, List.nodup_singleton _, ?_⟩
    rw [List.disjoint_singleton]
    intro hmem
    have := hi.ownerBound _ hmem
    omega
  · rintro id (hmem | rfl)
    · exact (hi.ownerBound id hmem).trans (Nat.le_succ _)
    · omega
  · rintro r (hr | rfl)
    · exact .inl (hi.owned r (hkept.subset hr))
    · exact .inr rfl
  · exact hi.recoveries
  · exact fun id hmem => (hi.recoveryBound id hmem).trans (Nat.le_succ _)
  · intro id hmem
    refine .inr ?_
    rintro r (hr | rfl) hrid
    · exact hidle r hr
    · have := hi.recoveryBound id hmem
      omega
  · rintro c hc
    simp at hc

/-- What a move keeps by itself. -/
theorem moved_bound {p : TxRow → Bool} {before target : TxState} (hi : Inv w)
    (h : Moved p before target w w') : ∀ r ∈ w'.db.transactions, r.id ≤ w'.db.txSeq := by
  intro r hr
  obtain ⟨s, hs, hid, -⟩ := h.mem hr
  rw [hid, h.txSeq]
  exact hi.bound s hs

theorem moved_owned {p : TxRow → Bool} {before target : TxState} (hi : Inv w)
    (h : Moved p before target w w') : ∀ r ∈ w'.db.transactions, r.id ∈ w'.ownerIds := by
  intro r hr
  obtain ⟨s, hs, hid, -⟩ := h.mem hr
  rw [hid, h.ownerIds]
  exact hi.owned s hs

theorem ownedMove {owner : ℕ} (hi : Inv w) (h : Owned w w' owner) : Inv w' := by
  obtain ⟨capability, p, before, target, -, hp, -, hmoved⟩ := h.moved
  have hclaims := h.claims
  have hids := hmoved.ids
  -- a claimed row is not the one that moves
  have hfree : ∀ r ∈ w.db.transactions, (∃ c ∈ w.db.claims, c.transactionId = r.id) →
      p r = false := by
    rintro r - ⟨c, hc, hcid⟩
    by_contra hne
    exact (hp r (by simpa using hne)).2 c hc hcid
  constructor
  · rw [hids]; exact hi.ids
  · exact moved_bound hi hmoved
  · exact hmoved.unresolved_le.trans hi.single
  · rw [hclaims]; exact hi.claimIds
  · intro c hc
    rw [hclaims] at hc
    obtain ⟨r, hr, hrid, hstate⟩ := hi.claimed c hc
    exact ⟨r, hmoved.keeps hr (hfree r hr ⟨c, hc, hrid.symm⟩), hrid, hstate⟩
  · rw [hmoved.ownerIds]; exact hi.owners
  · rw [hmoved.ownerIds, hmoved.txSeq]; exact hi.ownerBound
  · exact moved_owned hi hmoved
  · rw [hmoved.recoveryIds]; exact hi.recoveries
  · rw [hmoved.recoveryIds, hmoved.txSeq]; exact hi.recoveryBound
  · intro id hid
    rw [hmoved.recoveryIds] at hid
    rw [hclaims]
    refine (hi.recovered id hid).imp_right fun hended r hr hrid => ?_
    obtain ⟨s, hs, hsid, ⟨-, hbefore, -⟩ | ⟨-, rfl⟩⟩ := hmoved.mem hr
    · have := hended s hs (hsid.symm.trans hrid)
      rw [hbefore, TxState.moves_unresolved hmoved.moves] at this
      simp at this
    · exact hended _ hs hrid
  · rw [hclaims, hmoved.recoveryIds]; exact hi.recoveryClaimed

theorem claimMade (hi : Inv w) (h : Claimed w w') : Inv w' := by
  obtain ⟨row, hrow, claim, hstate, hclaim, hfree, hclaims, hrecoveries⟩ := h.row
  -- the row has no claim, so a capability for it would mean that it had ended
  have hnew : row.id ∉ w.recoveryIds := by
    intro hmem
    rcases hi.recovered row.id hmem with ⟨c, hc, hcid⟩ | hended
    · exact hfree c hc hcid
    · have := hended row hrow rfl
      rw [hstate] at this
      simp [TxState.unresolved] at this
  constructor <;> simp only [h.transactions, hclaims, h.txSeq, h.ownerIds, hrecoveries,
    List.map_append, List.mem_append, List.mem_singleton, List.map_cons, List.map_nil]
  · exact hi.ids
  · exact hi.bound
  · exact hi.single
  · refine List.nodup_append'.mpr ⟨hi.claimIds, List.nodup_singleton _, ?_⟩
    rw [List.disjoint_singleton]
    intro hmem
    obtain ⟨c, hc, hcid⟩ := List.mem_map.mp hmem
    exact hfree c hc (hcid.trans hclaim)
  · rintro c (hc | rfl)
    · exact hi.claimed c hc
    · exact ⟨row, hrow, hclaim.symm, hstate⟩
  · exact hi.owners
  · exact hi.ownerBound
  · exact hi.owned
  · refine List.nodup_append'.mpr ⟨hi.recoveries, List.nodup_singleton _, ?_⟩
    rw [List.disjoint_singleton]
    exact hnew
  · rintro id (hmem | rfl)
    · exact hi.recoveryBound id hmem
    · exact hi.bound row hrow
  · rintro id (hmem | rfl)
    · refine (hi.recovered id hmem).imp_left ?_
      rintro ⟨c, hc, hcid⟩
      exact ⟨c, .inl hc, hcid⟩
    · exact .inl ⟨claim, .inr rfl, hclaim⟩
  · rintro c (hc | rfl)
    · exact .inl (hi.recoveryClaimed c hc)
    · exact .inr hclaim

theorem reconciled {recovery : ℕ} (hi : Inv w) (h : Reconciled P w w' recovery) : Inv w' := by
  obtain ⟨capability, claim, p, target, -, hclaim, hclaimId, -, ⟨row, hrow, hprow⟩, hp, hmoved,
    live, hlive, hliveId, hclaims⟩ := h.moved
  have hids := hmoved.ids
  have hmem : ∀ c ∈ w'.db.claims, c ∈ w.db.claims ∧ live c = false := by
    intro c hc
    rw [hclaims] at hc
    exact Table.mem_delete.mp hc
  -- the claim that ends is the only one on its row
  have hother : ∀ c ∈ w'.db.claims, c.transactionId ≠ capability.transactionId := by
    intro c hc hcid
    obtain ⟨hcw, hdead⟩ := hmem c hc
    obtain rfl := Table.eq_of_key hi.claimIds hcw hclaim (hcid.trans hclaimId.symm)
    rw [hlive] at hdead
    simp at hdead
  constructor
  · rw [hids]; exact hi.ids
  · exact moved_bound hi hmoved
  · exact hmoved.unresolved_le.trans hi.single
  · rw [hclaims]; exact Table.keys_delete_nodup hi.claimIds
  · intro c hc
    obtain ⟨r, hr, hrid, hstate⟩ := hi.claimed c (hmem c hc).1
    refine ⟨r, hmoved.keeps hr ?_, hrid, hstate⟩
    by_contra hne
    exact hother c hc (hrid.symm.trans (hp r (by simpa using hne)))
  · rw [hmoved.ownerIds]; exact hi.owners
  · rw [hmoved.ownerIds, hmoved.txSeq]; exact hi.ownerBound
  · exact moved_owned hi hmoved
  · rw [hmoved.recoveryIds]; exact hi.recoveries
  · rw [hmoved.recoveryIds, hmoved.txSeq]; exact hi.recoveryBound
  · intro id hid
    rw [hmoved.recoveryIds] at hid
    by_cases hcap : id = capability.transactionId
    · refine .inr fun r hr hrid => ?_
      obtain ⟨s, hs, hsid, ⟨-, -, htarget⟩ | ⟨hps, -⟩⟩ := hmoved.mem hr
      · rw [htarget]
        exact TxState.moves_recovery hmoved.moves
      · have hkey : s.id = row.id := by rw [← hsid, hrid, hcap, hp row hprow]
        obtain rfl := Table.eq_of_key hi.ids hs hrow hkey
        rw [hprow] at hps
        simp at hps
    · rcases hi.recovered id hid with ⟨c, hc, hcid⟩ | hended
      · refine .inl ⟨c, ?_, hcid⟩
        rw [hclaims]
        refine Table.mem_delete.mpr ⟨hc, ?_⟩
        by_contra hne
        exact hcap (hcid.symm.trans (hliveId c (by simpa using hne)))
      · refine .inr fun r hr hrid => ?_
        obtain ⟨s, hs, hsid, ⟨hps, -, -⟩ | ⟨-, rfl⟩⟩ := hmoved.mem hr
        · exact absurd ((hrid.symm.trans hsid).trans (hp s hps)) hcap
        · exact hended _ hs hrid
  · intro c hc
    rw [hmoved.recoveryIds]
    exact hi.recoveryClaimed c (hmem c hc).1

theorem effect (hi : Inv w) (h : Effect P w w' c) : Inv w' := by
  cases h with
  | unmoved h => exact hi.unmoved h
  | prepared h => exact hi.prepared h
  | owned owner _ h => exact hi.ownedMove h
  | claimed h => exact hi.claimMade h
  | reconciled recovery _ h => exact hi.reconciled h

/-- It holds along every run of any number of instances. -/
theorem run {labels : List (ℕ × Call)} (h : Run (World.Step P) World.start labels w) : Inv w :=
  h.invariant (fun _ _ _ hi ⟨_, hexec⟩ => hi.effect (exec_effect hexec).1) start

end Inv

/-! ### Custody of a row -/

/-- Call `c` is made with the one owner capability issued for transaction `id`. -/
def OwnedBy (w : World) (c : Call) (id : ℕ) : Prop :=
  ∃ k capability, c.owner = some k ∧ w.owners[k]? = some capability ∧
    capability.transactionId = id ∧
    ∀ j other, w.owners[j]? = some other → other.transactionId = id → j = k

/-- Call `c` ends the one live claim on transaction `id`, with the one recovery capability issued
    for it. -/
def ClaimedBy (P : Platform) (w w' : World) (c : Call) (id : ℕ) : Prop :=
  ∃ k capability claim, c.recovery = some k ∧ w.recoveries[k]? = some capability ∧
    capability.transactionId = id ∧
    (∀ j other, w.recoveries[j]? = some other → other.transactionId = id → j = k) ∧
    claim ∈ w.db.claims ∧ claim.transactionId = id ∧
    claim.capability = P.recoveryDigest id claim.recordSha capability.secret ∧
    (∀ other ∈ w.db.claims, other.transactionId = id → other = claim) ∧
    ∀ other ∈ w'.db.claims, other.transactionId ≠ id

/-- What a step may do to the transactions. -/
structure Custody (P : Platform) (w w' : World) (c : Call) (result : Except Raised Unit) :
    Prop where
  /-- A row keeps its state or goes along the state graph. -/
  moves : ∀ r ∈ w.db.transactions, ∀ r' ∈ w'.db.transactions, r'.id = r.id →
    r'.state = r.state ∨ r.state.moves r'.state = true
  owner : ∀ r ∈ w.db.transactions, ∀ r' ∈ w'.db.transactions, r'.id = r.id →
    r.state ≠ .recoveryRequired → r'.state ≠ r.state → OwnedBy w c r.id
  claim : ∀ r ∈ w.db.transactions, ∀ r' ∈ w'.db.transactions, r'.id = r.id →
    r.state = .recoveryRequired → r'.state ≠ r.state → ClaimedBy P w w' c r.id
  /-- The move out of MUTATING or RECOVERY_REQUIRED and its receipt are one commit. -/
  receipt : ∀ r ∈ w.db.transactions, ∀ r' ∈ w'.db.transactions, r'.id = r.id →
    r'.state ≠ r.state → r'.state ≠ .mutating → ∃ row, w'.db.log = w.db.log ++ [row]
  /-- Pruning takes terminal rows only. -/
  removed : ∀ r ∈ w.db.transactions, (∀ r' ∈ w'.db.transactions, r'.id ≠ r.id) →
    r.state.unresolved = false
  added : ∀ r' ∈ w'.db.transactions, (∀ r ∈ w.db.transactions, r.id ≠ r'.id) →
    r'.state = .prepared
  raised : ∀ e, result = .error e →
    w'.db.transactions = w.db.transactions ∧ w'.db.log = w.db.log

section Steps

variable {P : Platform} {w w' : World} {c : Call}

/-- Capabilities for one transaction are one capability. -/
theorem index_of_key {α : Type} {key : α → ℕ} {xs : List α} (hn : (xs.map key).Nodup) {j k : ℕ}
    {a b : α} (ha : xs[j]? = some a) (hb : xs[k]? = some b) (h : key a = key b) : j = k := by
  obtain ⟨hj, -⟩ := List.getElem?_eq_some_iff.mp ha
  refine (List.getElem?_inj (by rwa [List.length_map]) hn).mp ?_
  rw [List.getElem?_map, List.getElem?_map, ha, hb, Option.map_some, Option.map_some, h]

/-- A row that changed its state was moved by an owner or by the end of a claim. -/
theorem Inv.change (hi : Inv w) (h : Effect P w w' c) {r r' : TxRow}
    (hr : r ∈ w.db.transactions) (hr' : r' ∈ w'.db.transactions) (hid : r'.id = r.id)
    (hne : r'.state ≠ r.state) :
    r.state.moves r'.state = true ∧
      (r'.state ≠ .mutating → ∃ row, w'.db.log = w.db.log ++ [row]) ∧
      ((r.state ≠ .recoveryRequired ∧ OwnedBy w c r.id) ∨
        (r.state = .recoveryRequired ∧ ClaimedBy P w w' c r.id)) := by
  -- the row that `r'` comes from is `r`
  have hmoved : ∀ {p before target}, Moved p before target w w' →
      p r = true ∧ r.state = before ∧ r'.state = target := by
    intro p before target hm
    obtain ⟨s, hs, hsid, hcase⟩ := hm.mem hr'
    obtain rfl := Table.eq_of_key hi.ids hs hr (hsid.symm.trans hid)
    rcases hcase with hcase | ⟨-, rfl⟩
    · exact hcase
    · exact absurd rfl hne
  cases h with
  | unmoved h =>
    rw [h.transactions] at hr'
    exact absurd (congrArg TxRow.state (Table.eq_of_key hi.ids hr' hr hid)) hne
  | claimed h =>
    rw [h.transactions] at hr'
    exact absurd (congrArg TxRow.state (Table.eq_of_key hi.ids hr' hr hid)) hne
  | prepared h =>
    obtain ⟨kept, row, hkept, hrowid, -, hrows, -⟩ := h.rows
    rw [hrows, List.mem_append, List.mem_singleton] at hr'
    rcases hr' with hr' | rfl
    · exact absurd (congrArg TxRow.state (Table.eq_of_key hi.ids (hkept.subset hr') hr hid)) hne
    · have := hi.bound r hr
      omega
  | owned owner hc h =>
    obtain ⟨capability, p, before, target, hcapability, hp, hbefore, hm⟩ := h.moved
    obtain ⟨hpr, hrb, hrt⟩ := hmoved hm
    have hcid := (hp r hpr).1
    refine ⟨hrb ▸ hrt ▸ hm.moves, fun hnm => hm.receipt (hrt ▸ hnm), .inl ⟨hrb ▸ hbefore, ?_⟩⟩
    exact ⟨owner, capability, hc, hcapability, hcid.symm, fun j other hj hother =>
      index_of_key hi.owners hj hcapability (hother.trans hcid)⟩
  | reconciled recovery hc h =>
    obtain ⟨capability, claim, p, target, hcapability, hclaim, hclaimId, hdigest, -, hp, hm,
      live, hlive, -, hclaims⟩ := h.moved
    obtain ⟨hpr, hrb, hrt⟩ := hmoved hm
    have hcid := hp r hpr
    refine ⟨hrb ▸ hrt ▸ hm.moves, fun hnm => hm.receipt (hrt ▸ hnm), .inr ⟨hrb, ?_⟩⟩
    have honly : ∀ other ∈ w.db.claims, other.transactionId = r.id → other = claim :=
      fun other hother hoid =>
        Table.eq_of_key hi.claimIds hother hclaim ((hoid.trans hcid).trans hclaimId.symm)
    refine ⟨recovery, capability, claim, hc, hcapability, hcid.symm, fun j other hj hother =>
      index_of_key hi.recoveries hj hcapability (hother.trans hcid), hclaim,
      hclaimId.trans hcid.symm, hcid ▸ hdigest, honly, fun other hother hoid => ?_⟩
    rw [hclaims] at hother
    obtain ⟨hmem, hdead⟩ := Table.mem_delete.mp hother
    rw [honly other hmem hoid, hlive] at hdead
    simp at hdead

/-- Only a preparation removes or adds rows. -/
theorem Effect.rows (h : Effect P w w' c) :
    (∀ r ∈ w.db.transactions, (∀ r' ∈ w'.db.transactions, r'.id ≠ r.id) →
        r.state.unresolved = false) ∧
      ∀ r' ∈ w'.db.transactions, (∀ r ∈ w.db.transactions, r.id ≠ r'.id) →
        r'.state = .prepared := by
  have hkeep : w'.db.transactions.map (·.id) = w.db.transactions.map (·.id) →
      (∀ r ∈ w.db.transactions, (∀ r' ∈ w'.db.transactions, r'.id ≠ r.id) →
        r.state.unresolved = false) ∧
      ∀ r' ∈ w'.db.transactions, (∀ r ∈ w.db.transactions, r.id ≠ r'.id) →
        r'.state = .prepared := by
    intro hids
    refine ⟨fun r hr hgone => ?_, fun r' hr' hnew => ?_⟩
    · obtain ⟨r', hr', hid⟩ := List.mem_map.mp (hids ▸ List.mem_map_of_mem hr)
      exact absurd hid (hgone r' hr')
    · obtain ⟨r, hr, hid⟩ := List.mem_map.mp (hids ▸ List.mem_map_of_mem hr')
      exact absurd hid (hnew r hr)
  cases h with
  | unmoved h => exact hkeep (by rw [h.transactions])
  | claimed h => exact hkeep (by rw [h.transactions])
  | owned owner hc h =>
    obtain ⟨_, _, _, _, -, -, -, hm⟩ := h.moved
    exact hkeep hm.ids
  | reconciled recovery hc h =>
    obtain ⟨_, _, _, _, -, -, -, -, -, -, hm, -⟩ := h.moved
    exact hkeep hm.ids
  | prepared h =>
    obtain ⟨kept, row, hkept, -, hstate, hrows, -⟩ := h.rows
    refine ⟨fun r hr _ => h.idle r hr, fun r' hr' hnew => ?_⟩
    rw [hrows, List.mem_append, List.mem_singleton] at hr'
    rcases hr' with hr' | rfl
    · exact absurd rfl (hnew r' (hkept.subset hr'))
    · exact hstate

end Steps

/-- CORRECT: along every run of any number of instances on one database, rows keep distinct ids, at
    most one of them is unresolved, and every next step keeps custody of the rows. -/
theorem run_custody {P : Platform} {labels : List (ℕ × Call)} {w : World}
    (h : Run (World.Step P) World.start labels w) :
    (w.db.transactions.map (·.id)).Nodup ∧
      (w.db.transactions.filter (·.state.unresolved)).length ≤ 1 ∧
      ∀ i c result w', w.exec P i c = some (result, w') → Custody P w w' c result := by
  have hi := Inv.run h
  refine ⟨hi.ids, hi.single, fun i c result w' hexec => ?_⟩
  obtain ⟨heffect, hraised⟩ := exec_effect hexec
  obtain ⟨hremoved, hadded⟩ := heffect.rows
  constructor
  · intro r hr r' hr' hid
    by_cases hne : r'.state = r.state
    · exact .inl hne
    · exact .inr (hi.change heffect hr hr' hid hne).1
  · intro r hr r' hr' hid hstate hne
    rcases (hi.change heffect hr hr' hid hne).2.2 with ⟨-, howned⟩ | ⟨hrecovery, -⟩
    · exact howned
    · exact absurd hrecovery hstate
  · intro r hr r' hr' hid hstate hne
    rcases (hi.change heffect hr hr' hid hne).2.2 with ⟨hno, -⟩ | ⟨-, hclaimed⟩
    · exact absurd hstate hno
    · exact hclaimed
  · exact fun r hr r' hr' hid hne => (hi.change heffect hr hr' hid hne).2.1
  · exact hremoved
  · exact hadded
  · exact hraised

/-- The texts of one secret; no other digest is used below. -/
def onePlatform : Platform where
  repr _ := []
  sha256 _ := genesisHash
  sha256_length _ := rfl
  hmac _ := genesisHash
  hmac_length _ := rfl
  storedSha256 _ := genesisHash
  ownerDigest secret :=
    if secret = 1 then "4cf435f9e92cd22a1180ad09c97167f461db0609e44ee776f359d63424db9c6f".toList
    else genesisHash
  recoveryDigest _ _ _ := genesisHash

def oneIntent : PrepareArgs :=
  ⟨"alert".toList, "T1059".toList, "block_ip".toList, "Block IP".toList, true, .dict [], 1⟩

/-- A prepared row enters MUTATING under its capability. -/
theorem run_custody_prepared : ∃ w w', Run (World.Step onePlatform) World.start
    [(0, .init), (0, .prepare oneIntent)] w ∧
    w.exec onePlatform 0 (.transition 0 "MUTATING".toList (.dict [])) = some (.ok (), w') ∧
    w'.db.transactions.map (·.state) = [.mutating] ∧
    Custody onePlatform w w' (.transition 0 "MUTATING".toList (.dict [])) (.ok ()) := by
  have hrun : Run (World.Step onePlatform) World.start [(0, .init), (0, .prepare oneIntent)] _ :=
    (Run.nil.snoc ⟨.ok (), rfl⟩).snoc ⟨.ok (), rfl⟩
  exact ⟨_, _, hrun, rfl, rfl,
    (run_custody hrun).2.2 0 (.transition 0 "MUTATING".toList (.dict [])) (.ok ()) _ rfl⟩

end Angerona.Remediation
