import Angerona.Remediation.Model

/-!
    Custody of the host mutations.

    A step changes the transaction table in one of four ways: it prepares a row when none is
    unresolved, moves the row of an owner capability, claims a row that needs recovery, or ends the
    row of a recovery claim. The invariant and every statement about a step follow from these. -/

namespace Angerona.Remediation
open Text PyJson Raising Transition

/-! ### The state graph -/

/-- The moves a row may make. -/
def TxState.moves : TxState → TxState → Bool
  | .prepared, .mutating => true
  | .mutating, .applied | .mutating, .rolledBack | .mutating, .recoveryRequired => true
  | .recoveryRequired, .applied | .recoveryRequired, .rolledBack => true
  | _, _ => false

/-- The owner capability a call is made with. -/
def Call.owner : Call → Option ℕ
  | .transition owner _ _ | .finish owner _ _ _ => some owner
  | _ => none

/-- The recovery capability a call ends a claim with. -/
def Call.recovery : Call → Option ℕ
  | .finishReconciliation _ capability _ _ => some capability
  | _ => none

def World.ownerIds (w : World) : List ℕ := w.owners.map (·.transactionId)
def World.recoveryIds (w : World) : List ℕ := w.recoveries.map (·.transactionId)

/-! ### The SQLite transactions -/

section Transactions

variable {P : Platform} {db db' : Db} {entry : Entry}

theorem ofJson_ok {α : Type} {x : Except JsonError α} {a : α} (h : ofJson x = .ok a) :
    x = .ok a := by
  cases x with
  | error e => simp [ofJson] at h
  | ok b => exact congrArg _ (Except.ok.inj h)

theorem insertReceipt_ok (h : db.insertReceipt entry = .ok db') :
    db' = { db with log := db.log ++ [⟨entry, db.logSeq + 1⟩], logSeq := db.logSeq + 1 } := by
  obtain ⟨-, h⟩ := if_error_ok.mp h
  exact (Except.ok.inj h).symm

/-- Pruning receipts leaves the other tables alone. -/
theorem pruneLog_eq (db : Db) : ∃ rows, db.pruneLog = { db with log := rows } := by
  rw [Db.pruneLog]
  split
  · exact ⟨_, rfl⟩
  · exact ⟨db.log, rfl⟩

theorem pruneTransactions_ok (h : db.pruneTransactions = .ok db') :
    ∃ kept, kept.Sublist db.transactions ∧ db' = { db with transactions := kept } := by
  simp only [Db.pruneTransactions] at h
  split at h
  · exact ⟨db.transactions, List.Sublist.refl _, (Except.ok.inj h).symm⟩
  · obtain ⟨-, h⟩ := if_error_ok.mp h
    exact ⟨_, List.filter_sublist, (Except.ok.inj h).symm⟩

/-- A row is prepared when no row is unresolved. -/
theorem prepare_ok {intent : Intent} {digest : Str} (h : db.prepare intent digest = .ok db') :
    (∀ r ∈ db.transactions, r.state.unresolved = false) ∧
      ∃ kept row, kept.Sublist db.transactions ∧ row.id = db.txSeq + 1 ∧ row.state = .prepared ∧
        db' = { db with transactions := kept ++ [row], txSeq := db.txSeq + 1 } := by
  simp only [Db.prepare] at h
  obtain ⟨hactive, h⟩ := if_error_ok.mp h
  obtain ⟨pruned, hpruned, h⟩ := bind_ok.mp h
  obtain ⟨-, h⟩ := if_error_ok.mp h
  obtain ⟨kept, hkept, rfl⟩ := pruneTransactions_ok hpruned
  refine ⟨fun r hr => ?_, kept, _, hkept, rfl, rfl, (Except.ok.inj h).symm⟩
  have hnil := not_not.mp hactive
  rw [List.take_eq_nil_iff] at hnil
  have hfilter := hnil.resolve_left (by decide)
  simpa using List.filter_eq_nil_iff.mp hfilter r hr

theorem owned_iff {id : ℕ} {state : TxState} {digest : Str} {row : TxRow} :
    db.owned id state digest row = true ↔ row.id = id ∧ row.state = state ∧
      row.owner = some digest ∧ ∀ claim ∈ db.claims, claim.transactionId ≠ row.id := by
  simp [Db.owned]

theorem owned_row {id : ℕ} {state : TxState} {digest : Str} (row : TxRow)
    (h : db.owned id state digest row = true) :
    row.id = id ∧ ∀ claim ∈ db.claims, claim.transactionId ≠ row.id := by
  obtain ⟨hid, -, -, hclaims⟩ := owned_iff.mp h
  exact ⟨hid, hclaims⟩

theorem transition_ok {id : ℕ} {digest : Str} {encoded : Json}
    (h : db.transition id digest encoded = .ok db') :
    db' = { db with
      transactions := Table.update (db.owned id .prepared digest)
        (fun row => { row with state := .mutating, record := encoded }) db.transactions } := by
  obtain ⟨-, h⟩ := if_error_ok.mp h
  exact (Except.ok.inj h).symm

theorem finish_ok {id : ℕ} {digest : Str} {completion : Completion} {normalized : Dict}
    {encoded : Json} {stamp : Stamp}
    (h : db.finish P id digest completion normalized encoded stamp = .ok db') :
    ∃ row entry, completionEntry P row row.trigger completion normalized encoded stamp
        db.receiptHead = .ok entry ∧
      Db.insertReceipt entry { db with
        transactions := Table.update (db.owned id .mutating digest)
          (fun row => { row with state := completion.target, record := encoded, owner := none })
          db.transactions } = .ok db' := by
  rw [Db.finish] at h
  split at h
  · simp at h
  · rename_i row _
    obtain ⟨-, h⟩ := if_error_ok.mp h
    obtain ⟨-, h⟩ := if_error_ok.mp h
    obtain ⟨entry, hentry, h⟩ := bind_ok.mp h
    obtain ⟨-, h⟩ := if_error_ok.mp h
    exact ⟨row, entry, hentry, h⟩

/-- A claim is made on an unclaimed row that needs recovery. -/
theorem claim_ok {wanted : ℤ} {secret id : ℕ} (h : db.claim P wanted secret = .ok (some (id, db'))) :
    ∃ row ∈ db.transactions, row.id = id ∧ row.state = .recoveryRequired ∧
      (∀ claim ∈ db.claims, claim.transactionId ≠ id) ∧
      ∃ claim : Claim, claim.transactionId = id ∧
        db' = { db with claims := db.claims ++ [claim], claimSeq := db.claimSeq + 1 } := by
  rw [Db.claim] at h
  split at h
  · simp at h
  · rename_i row hfind
    split at h
    · simp at h
    rename_i hunclaimed
    split at h
    · simp at h
    rename_i hstate
    obtain ⟨-, h⟩ := if_error_ok.mp h
    obtain ⟨rfl, rfl⟩ := Prod.mk.inj (Option.some.inj (Except.ok.inj h))
    exact ⟨row, List.mem_of_find?_eq_some hfind, rfl, not_not.mp hstate, by simpa using hunclaimed,
      ⟨db.claimSeq + 1, row.id, _, _⟩, rfl, rfl⟩

/-- The live claim a recovery capability is for. -/
theorem validateClaim_ok {id secret : ℕ} {row : TxRow} {claim : Claim} {supplied : Str}
    (h : db.validateClaim P id secret = .ok (row, claim, supplied)) :
    row.id = id ∧ claim ∈ db.claims ∧ claim.transactionId = id ∧
      claim.capability = P.recoveryDigest id claim.recordSha secret ∧
      supplied = claim.capability := by
  rw [Db.validateClaim] at h
  split at h
  · rename_i row' claim' hrow hclaim
    obtain ⟨hdigest, h⟩ := if_error_ok.mp h
    obtain ⟨-, h⟩ := if_error_ok.mp h
    obtain ⟨-, h⟩ := if_error_ok.mp h
    obtain ⟨hr, hrest⟩ := Prod.mk.inj (Except.ok.inj h)
    obtain ⟨hc, hs⟩ := Prod.mk.inj hrest
    subst hr hc hs
    exact ⟨by simpa using List.find?_some hrow, List.mem_of_find?_eq_some hclaim,
      by simpa using List.find?_some hclaim, not_not.mp hdigest, (not_not.mp hdigest).symm⟩
  · simp at h

/-- The statements that end a claim: the row, its receipt, and the claim itself. -/
theorem reconcile_ok {row : TxRow} {claim : Claim} {supplied : Str} {completion : Completion}
    {normalized : Dict} {encoded : Json} {stamp : Stamp}
    (h : db.reconcile P row claim supplied completion normalized encoded stamp = .ok db') :
    ∃ entry, completionEntry P row "explicit_reconciliation".toList completion normalized encoded
        stamp db.receiptHead = .ok entry ∧
      Table.rowcount (db.claimed row.id supplied) db.transactions = 1 ∧
      ∃ db₁, Db.insertReceipt entry { db with
          transactions := Table.update (db.claimed row.id supplied)
            (fun row => { row with state := completion.target, record := encoded })
            db.transactions } = .ok db₁ ∧
        db' = { db₁ with claims := Table.delete (fun c => decide (c.transactionId = row.id ∧
          c.claimId = claim.claimId ∧ c.capability = supplied)) db₁.claims } := by
  obtain ⟨entry, hentry, h⟩ := bind_ok.mp h
  obtain ⟨hcount, h⟩ := if_error_ok.mp h
  obtain ⟨db₁, hinsert, h⟩ := bind_ok.mp h
  obtain ⟨-, h⟩ := if_error_ok.mp h
  exact ⟨entry, hentry, not_not.mp hcount, db₁, hinsert, (Except.ok.inj h).symm⟩

end Transactions

/-! ### The ways a step changes the transaction table -/

/-- The transaction table, the claims and the capabilities issued are as before. -/
structure Unmoved (w w' : World) : Prop where
  transactions : w'.db.transactions = w.db.transactions
  claims : w'.db.claims = w.db.claims
  txSeq : w'.db.txSeq = w.db.txSeq
  ownerIds : w'.ownerIds = w.ownerIds
  recoveryIds : w'.recoveryIds = w.recoveryIds

/-- A new row under a new id, when none is unresolved. -/
structure Prepared (w w' : World) : Prop where
  idle : ∀ r ∈ w.db.transactions, r.state.unresolved = false
  rows : ∃ kept row, kept.Sublist w.db.transactions ∧ row.id = w.db.txSeq + 1 ∧
    row.state = .prepared ∧ w'.db.transactions = kept ++ [row] ∧
    w'.ownerIds = w.ownerIds ++ [row.id]
  claims : w'.db.claims = w.db.claims
  txSeq : w'.db.txSeq = w.db.txSeq + 1
  recoveryIds : w'.recoveryIds = w.recoveryIds

/-- The rows `p` selects move from `before` to `target`. -/
structure Moved (p : TxRow → Bool) (before target : TxState) (w w' : World) : Prop where
  rows : ∃ f : TxRow → TxRow, (∀ r, (f r).id = r.id ∧ (f r).state = target) ∧
    w'.db.transactions = Table.update p f w.db.transactions
  source : ∀ r, p r = true → r.state = before
  moves : before.moves target = true
  receipt : target ≠ .mutating → ∃ row, w'.db.log = w.db.log ++ [row]
  txSeq : w'.db.txSeq = w.db.txSeq
  ownerIds : w'.ownerIds = w.ownerIds
  recoveryIds : w'.recoveryIds = w.recoveryIds

/-- The row of an owner capability moves while it is unclaimed. -/
structure Owned (w w' : World) (owner : ℕ) : Prop where
  moved : ∃ capability p before target, w.owners[owner]? = some capability ∧
    (∀ r, p r = true → r.id = capability.transactionId ∧
      ∀ claim ∈ w.db.claims, claim.transactionId ≠ r.id) ∧
    before ≠ .recoveryRequired ∧ Moved p before target w w'
  claims : w'.db.claims = w.db.claims

/-- A row that needs recovery gets its claim. -/
structure Claimed (w w' : World) : Prop where
  row : ∃ row ∈ w.db.transactions, ∃ claim : Claim, row.state = .recoveryRequired ∧
    claim.transactionId = row.id ∧ (∀ c ∈ w.db.claims, c.transactionId ≠ row.id) ∧
    w'.db.claims = w.db.claims ++ [claim] ∧ w'.recoveryIds = w.recoveryIds ++ [row.id]
  transactions : w'.db.transactions = w.db.transactions
  txSeq : w'.db.txSeq = w.db.txSeq
  ownerIds : w'.ownerIds = w.ownerIds

/-- The row of a live claim ends, and the claim with it. -/
structure Reconciled (P : Platform) (w w' : World) (recovery : ℕ) : Prop where
  moved : ∃ capability claim p target, w.recoveries[recovery]? = some capability ∧
    claim ∈ w.db.claims ∧ claim.transactionId = capability.transactionId ∧
    claim.capability =
      P.recoveryDigest capability.transactionId claim.recordSha capability.secret ∧
    (∃ r ∈ w.db.transactions, p r = true) ∧
    (∀ r, p r = true → r.id = capability.transactionId) ∧
    Moved p .recoveryRequired target w w' ∧
    ∃ live : Claim → Bool, live claim = true ∧
      (∀ c, live c = true → c.transactionId = capability.transactionId) ∧
      w'.db.claims = Table.delete live w.db.claims

/-- What a step does. -/
inductive Effect (P : Platform) (w w' : World) (c : Call) : Prop where
  | unmoved (h : Unmoved w w')
  | prepared (h : Prepared w w')
  | owned (owner : ℕ) (hc : c.owner = some owner) (h : Owned w w' owner)
  | claimed (h : Claimed w w')
  | reconciled (recovery : ℕ) (hc : c.recovery = some recovery) (h : Reconciled P w w' recovery)

section Effects

variable {P : Platform} {w w' : World} {i : ℕ} {inst : Instance}

theorem Unmoved.refl (w : World) : Unmoved w w := ⟨rfl, rfl, rfl, rfl, rfl⟩

theorem Unmoved.setInstance (h : Unmoved w w') (i : ℕ) (inst : Instance) :
    Unmoved w (w'.setInstance i inst) :=
  ⟨h.transactions, h.claims, h.txSeq, h.ownerIds, h.recoveryIds⟩

/-- A change of the receipts alone. -/
theorem Unmoved.log (w : World) (rows : List LogRow) (seq : ℕ) :
    Unmoved w { w with db := { w.db with log := rows, logSeq := seq } } :=
  ⟨rfl, rfl, rfl, rfl, rfl⟩

theorem Unmoved.noteCommitted (h : Unmoved w w') (i : ℕ) (inst : Instance) (fails : Bool) :
    Unmoved w (w'.noteCommitted i inst fails) := by
  rw [World.noteCommitted]
  split
  · exact h.setInstance i _
  · refine Unmoved.setInstance ?_ i _
    split
    · exact h
    · obtain ⟨rows, hrows⟩ := pruneLog_eq w'.db
      rw [hrows]
      exact ⟨h.transactions, h.claims, h.txSeq, h.ownerIds, h.recoveryIds⟩

theorem prepare_effect {args : PrepareArgs} (h : w.prepare P args = .ok w') : Prepared w w' := by
  obtain ⟨trigger, -, h⟩ := bind_ok.mp h
  obtain ⟨mitre, -, h⟩ := bind_ok.mp h
  obtain ⟨actionKey, -, h⟩ := bind_ok.mp h
  obtain ⟨actionTitle, -, h⟩ := bind_ok.mp h
  obtain ⟨encoded, -, h⟩ := bind_ok.mp h
  obtain ⟨db, hdb, h⟩ := bind_ok.mp h
  obtain rfl := Except.ok.inj h
  obtain ⟨hidle, kept, row, hkept, hid, hstate, rfl⟩ := prepare_ok hdb
  exact ⟨hidle, ⟨kept, row, hkept, hid, hstate, rfl, by simp [World.ownerIds, hid]⟩, rfl, rfl, rfl⟩

theorem ownerProof_ok {owner : ℕ} {capability : OwnerCapability}
    (h : w.ownerProof owner = .ok capability) : w.owners[owner]? = some capability := by
  rw [World.ownerProof] at h
  split at h
  · simp at h
  · rename_i hget
    obtain ⟨-, h⟩ := if_error_ok.mp h
    rw [hget, Except.ok.inj h]

theorem transition_effect {owner : ℕ} {state : Str} {record : Value}
    (h : w.transition P owner state record = .ok w') : Owned w w' owner := by
  obtain ⟨-, h⟩ := if_error_ok.mp h
  obtain ⟨capability, hcapability, h⟩ := bind_ok.mp h
  obtain ⟨encoded, -, h⟩ := bind_ok.mp h
  obtain ⟨db, hdb, h⟩ := bind_ok.mp h
  obtain rfl := Except.ok.inj h
  obtain rfl := transition_ok hdb
  refine ⟨⟨capability,
    w.db.owned capability.transactionId .prepared (P.ownerDigest capability.secret), .prepared,
    .mutating, ownerProof_ok hcapability, owned_row, by simp, ?_⟩, rfl⟩
  refine ⟨⟨_, ?_, rfl⟩, fun r hr => (owned_iff.mp hr).2.1, rfl, fun hne => absurd rfl hne, rfl, rfl,
    rfl⟩
  exact fun _ => ⟨rfl, rfl⟩

/-- A terminal result ends a mutation in one of the three states after it. -/
theorem ordinaryResult_moves {result : Str} {completion : Completion}
    (h : ordinaryResult result = some completion) :
    TxState.mutating.moves completion.target = true ∧ completion.target ≠ .mutating := by
  rw [ordinaryResult] at h
  split at h
  · rw [← Option.some.inj h]; exact ⟨rfl, by simp⟩
  split at h
  · rw [← Option.some.inj h]; exact ⟨rfl, by simp⟩
  split at h
  · rw [← Option.some.inj h]; exact ⟨rfl, by simp⟩
  split at h
  · rw [← Option.some.inj h]; exact ⟨rfl, by simp⟩
  split at h
  · rw [← Option.some.inj h]; exact ⟨rfl, by simp⟩
  · simp at h

theorem recoveryResult_moves {result : Str} {completion : Completion}
    (h : recoveryResult result = some completion) :
    TxState.recoveryRequired.moves completion.target = true := by
  rw [recoveryResult] at h
  split at h
  · rw [← Option.some.inj h]; rfl
  split at h
  · rw [← Option.some.inj h]; rfl
  · simp at h

theorem finish_effect {owner : ℕ} {result : Str} {record : Value} {stamp : Stamp}
    (h : w.finish P i inst owner result record stamp = .ok w') : Owned w w' owner := by
  rw [World.finish] at h
  split at h
  · simp at h
  rename_i completion hcompletion
  obtain ⟨normalized, -, h⟩ := bind_ok.mp h
  obtain ⟨encoded, -, h⟩ := bind_ok.mp h
  obtain ⟨capability, hcapability, h⟩ := bind_ok.mp h
  obtain ⟨db, hdb, h⟩ := bind_ok.mp h
  obtain rfl := Except.ok.inj h
  obtain ⟨row, entry, -, hinsert⟩ := finish_ok hdb
  obtain rfl := insertReceipt_ok hinsert
  refine ⟨⟨capability,
    w.db.owned capability.transactionId .mutating (P.ownerDigest capability.secret), .mutating,
    completion.target, ownerProof_ok hcapability, owned_row, by simp, ?_⟩, rfl⟩
  refine ⟨⟨_, ?_, rfl⟩, fun r hr => (owned_iff.mp hr).2.1, (ordinaryResult_moves hcompletion).1,
    fun _ => ⟨_, rfl⟩, rfl, rfl, rfl⟩
  exact fun _ => ⟨rfl, rfl⟩

theorem claim_effect {coordinator secret : ℕ} {transactionId : ℤ} {c : Call}
    (h : w.claim P i inst coordinator transactionId secret = .ok w') : Effect P w w' c := by
  obtain ⟨registry, -, h⟩ := bind_ok.mp h
  obtain ⟨made, hmade, h⟩ := bind_ok.mp h
  split at h
  · obtain rfl := Except.ok.inj h
    exact .unmoved (Unmoved.refl w)
  · rename_i id db
    obtain rfl := Except.ok.inj h
    obtain ⟨row, hrow, rfl, hstate, hfree, claim, hclaim, rfl⟩ := claim_ok hmade
    exact .claimed ⟨⟨row, hrow, claim, hstate, hclaim, hfree, rfl, by simp [World.recoveryIds]⟩,
      rfl, rfl, rfl⟩

theorem issue_effect {coordinator capability action : ℕ} {operation : Str} {evidence : Value}
    (h : w.issue P i inst coordinator capability action operation evidence = .ok w') :
    Unmoved w w' ∧ w'.db = w.db := by
  obtain ⟨registry, -, h⟩ := bind_ok.mp h
  split at h
  · simp at h
  obtain ⟨⟨result, proven⟩, -, h⟩ := bind_ok.mp h
  obtain ⟨recovery, -, h⟩ := bind_ok.mp h
  obtain ⟨⟨row, claim, supplied⟩, -, h⟩ := bind_ok.mp h
  obtain ⟨-, h⟩ := if_error_ok.mp h
  obtain ⟨-, h⟩ := if_error_ok.mp h
  obtain ⟨retained, -, h⟩ := bind_ok.mp h
  obtain ⟨normalized, -, h⟩ := bind_ok.mp h
  obtain ⟨encoded, -, h⟩ := bind_ok.mp h
  obtain rfl := Except.ok.inj h
  exact ⟨⟨rfl, rfl, rfl, rfl, rfl⟩, rfl⟩

theorem recoveryOf_ok {capability : ℕ} {recovery : RecoveryCapability}
    (h : w.recoveryOf capability = .ok recovery) : w.recoveries[capability]? = some recovery := by
  rw [World.recoveryOf] at h
  split at h
  · simp at h
  · rename_i hget
    obtain ⟨-, h⟩ := if_error_ok.mp h
    rw [hget, Except.ok.inj h]

theorem finishReconciliation_effect {coordinator capability proof : ℕ} {stamp : Stamp}
    (h : w.finishReconciliation P i inst coordinator capability proof stamp = .ok w') :
    Reconciled P w w' capability := by
  obtain ⟨registry, -, h⟩ := bind_ok.mp h
  obtain ⟨recovery, hrecovery, h⟩ := bind_ok.mp h
  split at h
  · simp at h
  obtain ⟨-, h⟩ := if_error_ok.mp h
  obtain ⟨-, h⟩ := if_error_ok.mp h
  split at h
  · simp at h
  rename_i completion hcompletion
  obtain ⟨normalized, -, h⟩ := bind_ok.mp h
  obtain ⟨encoded, -, h⟩ := bind_ok.mp h
  obtain ⟨⟨row, claim, supplied⟩, hvalid, h⟩ := bind_ok.mp h
  obtain ⟨-, h⟩ := if_error_ok.mp h
  obtain ⟨-, h⟩ := if_error_ok.mp h
  obtain ⟨db, hdb, h⟩ := bind_ok.mp h
  obtain rfl := Except.ok.inj h
  obtain ⟨hid, hclaim, hclaimId, hdigest, hsupplied⟩ := validateClaim_ok hvalid
  obtain ⟨entry, -, hcount, db₁, hinsert, rfl⟩ := reconcile_ok hdb
  obtain rfl := insertReceipt_ok hinsert
  have hclaimed : ∀ r, w.db.claimed row.id supplied r = true →
      r.id = row.id ∧ r.state = .recoveryRequired := by
    intro r hr
    simp only [Db.claimed, decide_eq_true_eq] at hr
    exact ⟨hr.1, hr.2.1⟩
  refine ⟨recovery, claim, w.db.claimed row.id supplied, completion.target, recoveryOf_ok hrecovery,
    hclaim, hclaimId, hdigest, Table.exists_of_rowcount hcount,
    fun r hr => (hclaimed r hr).1.trans hid, ?_, _, ?_, ?_, rfl⟩
  · refine ⟨⟨_, ?_, rfl⟩, fun r hr => (hclaimed r hr).2, recoveryResult_moves hcompletion,
      fun _ => ⟨_, rfl⟩, rfl, rfl, rfl⟩
    exact fun _ => ⟨rfl, rfl⟩
  · simp [hclaimId, hid, hsupplied]
  · intro c hc
    simp only [decide_eq_true_eq] at hc
    exact hc.1.trans hid

theorem proceed_effect (held : Held) (fails : Bool) :
    Unmoved w (w.proceed i inst fails held).2 := by
  cases held with
  | insert previous entry =>
    rw [World.proceed]
    split
    · exact (Unmoved.refl w).setInstance i _
    · rename_i db hdb
      refine Unmoved.setInstance ?_ i _
      split at hdb
      · simp at hdb
      · obtain rfl := insertReceipt_ok hdb
        exact Unmoved.log w _ _
  | logged => exact (Unmoved.refl w).noteCommitted i inst fails
  | finished owner =>
    have hu : Unmoved w { w with owners := w.owners.modify owner (·.retire) } :=
      ⟨rfl, rfl, rfl, Table.keys_modify (f := OwnerCapability.retire) (fun _ => rfl) owner w.owners,
        rfl⟩
    exact hu.noteCommitted i inst fails
  | reconciled transactionId capability proof =>
    have hu : Unmoved w { w with
        recoveries := w.recoveries.modify capability (·.retire)
        proofs := w.proofs.modify proof (·.retire) } :=
      ⟨rfl, rfl, rfl, rfl, Table.keys_modify (f := RecoveryCapability.retire) (fun _ => rfl)
        capability w.recoveries⟩
    exact hu.noteCommitted i _ fails

/-- The rest of a call raises only when its `INSERT` failed. -/
theorem proceed_raised {held : Held} {fails : Bool} {result : Except Raised Unit} {e : Raised}
    (h : w.proceed i inst fails held = (result, w')) (he : result = .error e) :
    w'.db.transactions = w.db.transactions ∧ w'.db.log = w.db.log := by
  subst he
  cases held with
  | insert previous entry =>
    rw [World.proceed] at h
    split at h
    · obtain rfl := (Prod.mk.inj h).2
      exact ⟨rfl, rfl⟩
    · simp at h
  | logged => simp [World.proceed] at h
  | finished owner => simp [World.proceed] at h
  | reconciled transactionId capability proof => simp [World.proceed] at h

theorem call_effect {c : Call} (h : w.call P i inst c = .ok w') : Effect P w w' c := by
  cases c with
  | init => exact Except.ok.inj h ▸ .unmoved (Unmoved.refl w)
  | bindCoordinator registry =>
    obtain ⟨bound, -, rfl⟩ := map_ok.mp h
    exact .unmoved ((Unmoved.refl w).setInstance i bound)
  | prepare args => exact .prepared (prepare_effect h)
  | transition owner state record => exact .owned owner rfl (transition_effect h)
  | finish owner result record stamp => exact .owned owner rfl (finish_effect h)
  | claim coordinator transactionId secret => exact claim_effect h
  | issue coordinator capability action operation evidence => exact .unmoved (issue_effect h).1
  | finishReconciliation coordinator capability proof stamp =>
    exact .reconciled capability rfl (finishReconciliation_effect h)
  | log args =>
    obtain ⟨entry, -, h⟩ := bind_ok.mp h
    obtain rfl := Except.ok.inj h
    exact .unmoved ((Unmoved.refl w).setInstance i _)
  | prune =>
    obtain rfl := Except.ok.inj h
    obtain ⟨rows, hrows⟩ := pruneLog_eq w.db
    rw [hrows]
    exact .unmoved ⟨rfl, rfl, rfl, rfl, rfl⟩
  | fail => simp [World.call] at h
  | proceed fails => exact Except.ok.inj h ▸ .unmoved (Unmoved.refl w)

/-- A step is a new instance, the rest of a call, or a call of an instance that is free. -/
theorem exec_cases {c : Call} {result : Except Raised Unit}
    (h : w.exec P i c = some (result, w')) :
    (c = .init ∧ w' = { w with instances := w.instances ++ [.new] } ∧ result = .ok ()) ∨
      (∃ fails inst held, c = .proceed fails ∧ w.instances[i]? = some inst ∧
        inst.held = some held ∧ w.proceed i inst fails held = (result, w')) ∨
      ∃ inst, w.instances[i]? = some inst ∧ w.settle (w.call P i inst c) = (result, w') := by
  have hfree : ∀ {inst : Instance}, (if inst.held.isSome then none
      else some (w.settle (w.call P i inst c))) = some (result, w') →
      w.settle (w.call P i inst c) = (result, w') := by
    intro inst h
    split at h
    · simp at h
    · exact Option.some.inj h
  cases c with
  | init =>
    obtain ⟨rfl, rfl⟩ := Prod.mk.inj (Option.some.inj h)
    exact .inl ⟨rfl, rfl, rfl⟩
  | proceed fails =>
    obtain ⟨inst, hinst, h⟩ := Option.bind_eq_some_iff.mp h
    obtain ⟨held, hheld, h⟩ := Option.map_eq_some_iff.mp h
    exact .inr (.inl ⟨fails, inst, held, rfl, hinst, hheld, h⟩)
  | _ =>
    obtain ⟨inst, hinst, h⟩ := Option.bind_eq_some_iff.mp h
    exact .inr (.inr ⟨inst, hinst, hfree h⟩)

/-- Every step is one of the five effects; a call that raises keeps the tables. -/
theorem exec_effect {c : Call} {result : Except Raised Unit}
    (h : w.exec P i c = some (result, w')) :
    Effect P w w' c ∧ ∀ e, result = .error e →
      w'.db.transactions = w.db.transactions ∧ w'.db.log = w.db.log := by
  rcases exec_cases h with ⟨rfl, rfl, rfl⟩ | ⟨fails, inst, held, rfl, -, -, hstep⟩ |
    ⟨inst, -, hstep⟩
  · exact ⟨.unmoved ⟨rfl, rfl, rfl, rfl, rfl⟩, fun _ he => by simp at he⟩
  · have hu := @proceed_effect w i inst held fails
    rw [hstep] at hu
    exact ⟨.unmoved hu, fun e he => proceed_raised hstep he⟩
  · cases hcall : w.call P i inst c with
    | ok v =>
      rw [hcall] at hstep
      obtain ⟨rfl, rfl⟩ := Prod.mk.inj hstep
      exact ⟨call_effect hcall, fun _ he => by simp at he⟩
    | error e =>
      rw [hcall] at hstep
      obtain ⟨rfl, rfl⟩ := Prod.mk.inj hstep
      exact ⟨.unmoved (Unmoved.refl w), fun _ _ => ⟨rfl, rfl⟩⟩

end Effects

end Angerona.Remediation
