import Angerona.Outbox.Runs

/-!
    Leases: who may settle a claimed item, and until when it is the claimer's alone.

    `claim` leases to the stripped and cut owner string, while `acknowledge` and `retry` compare the
    string they are given, so a claimed item can be settled exactly by owners that are their own
    normal form. A row that `claim` leases stays as it is until its deadline or until it is settled;
    a row that the worker held already is handed out again under its old deadline. -/

namespace Angerona.Outbox
open Text Raising

variable {Tag P J : Type} [DecidableEq Tag] {o : DurableOutbox Tag P J}

/-! ### Settling succeeds -/

omit [DecidableEq Tag] in
theorem Inv.rows_nodup {db : Db Tag} (hi : Inv o db) : db.rows.Nodup := .of_map _ hi.ids

theorem Inv.verifyIfChanged {db : Db Tag} (hi : Inv o db) (audit : Bool) :
    o.verifyIfChanged audit db = .ok () := by
  cases audit with
  | false => rfl
  | true =>
    refine forM_ok_iff.mpr fun r hr => ?_
    obtain ⟨j, hj⟩ := (hi.rows r hr).verifies
    rw [hj]
    rfl

theorem Inv.requiredRow {db : Db Tag} (hi : Inv o db) {r : Row Tag} (hr : r ∈ db.rows) :
    o.requiredRow db r.itemId = .ok r := by
  have hfind : findRow db r.itemId = some r := by
    obtain ⟨s, hs⟩ : ∃ s, findRow db r.itemId = some s := by
      rw [← Option.isSome_iff_exists, findRow, List.find?_isSome]
      exact ⟨r, hr, by simp⟩
    obtain ⟨hmem, hid⟩ := findRow_some hs
    rw [hs, Table.eq_of_key hi.ids hmem hr hid]
  obtain ⟨j, hj⟩ := (hi.rows r hr).verifies
  rw [DurableOutbox.requiredRow, hfind]
  simp [hj, Except.map]

/-- Exactly one row has the identity and signature of a row of the table. -/
theorem Inv.rowcount_version {db : Db Tag} (hi : Inv o db) {r : Row Tag} (hr : r ∈ db.rows) :
    Table.rowcount (Row.isVersion r.itemId r.stateSignature) db.rows = 1 := by
  obtain ⟨j, hj⟩ := (hi.rows r hr).verifies
  exact Table.rowcount_eq_one hi.rows_nodup hr (isVersion_self r)
    fun s hs => eq_of_version (hi.rows s hs) hj

theorem Inv.updateState_returns {db : Db Tag} (hi : Inv o db) {r changed : Row Tag}
    (hr : r ∈ db.rows) (hid : changed.itemId = r.itemId) :
    ∃ db', o.updateState db r changed = .ok db' := by
  have hcount := hi.rowcount_version hr
  rw [← hid] at hcount
  exact ⟨_, if_neg (not_not.mpr hcount)⟩

/-- Deleting distinct tombstones of the table one after the other succeeds. -/
theorem deleteAll_returns : ∀ {l : List (Row Tag)} {db : Db Tag}, Inv o db → l.Nodup →
    (∀ r ∈ l, r ∈ db.rows ∧ r.state = .delivered) → ∃ db', l.foldlM o.deleteVersion db = .ok db'
  | [], db, _, _, _ => ⟨db, rfl⟩
  | raw :: l, db, hi, hnd, hl => by
    obtain ⟨hmem, hstate⟩ := hl raw List.mem_cons_self
    obtain ⟨j, hj⟩ := (hi.rows raw hmem).verifies
    have hdel : ∃ d, o.deleteVersion db raw = .ok d :=
      ⟨{ db with rows := Table.delete (Row.isVersion raw.itemId raw.stateSignature) db.rows },
        bind_ok.mpr ⟨j, hj, if_neg (not_not.mpr (hi.rowcount_version hmem))⟩⟩
    obtain ⟨d, hd⟩ := hdel
    obtain ⟨-, hiff, -, hrows⟩ := deleteVersion_ok hi hd
    rw [List.nodup_cons] at hnd
    obtain ⟨db', hdb'⟩ := deleteAll_returns (hi.delete hstate hd) hnd.2 fun r hr => by
      obtain ⟨hrm, hrs⟩ := hl r (List.mem_cons_of_mem _ hr)
      refine ⟨?_, hrs⟩
      rw [hrows]
      refine Table.mem_delete.mpr ⟨hrm, ?_⟩
      rw [← Bool.not_eq_true, hiff r hrm]
      rintro rfl
      exact hnd.1 hr
    exact ⟨db', by rw [List.foldlM_cons, hd]; exact hdb'⟩

theorem Inv.prune_returns {db : Db Tag} (hi : Inv o db) :
    ∃ db', o.pruneTombstones db = .ok db' := by
  refine deleteAll_returns hi ?_ fun r hr => mem_tombstones.mp (List.mem_of_mem_drop hr)
  exact (((List.perm_insertionSort _ _).nodup_iff.mpr (hi.rows_nodup.filter _)).sublist
    (List.drop_sublist _ _))

/-- A leased row can be acknowledged by the very string in its owner column, and by no other. -/
theorem acknowledge_iff {db : Db Tag} (hi : Inv o db) {r : Row Tag} (hr : r ∈ db.rows)
    (hs : r.state = .leased) (audit : Bool) (owner : Str) :
    (∃ db', o.acknowledge audit r.itemId owner db = .ok db') ↔ owner = r.leaseOwner := by
  constructor
  · rintro ⟨db', h⟩
    obtain ⟨_, -, h⟩ := bind_ok.mp h
    obtain ⟨row, hrow, h⟩ := bind_ok.mp h
    rw [hi.requiredRow hr] at hrow
    obtain rfl := Except.ok.inj hrow
    simp only [if_error_ok, not_or, not_not] at h
    exact h.1.2.symm
  · rintro rfl
    obtain ⟨d, hd⟩ := hi.updateState_returns hr (@samePayload_deliver Tag r).itemId
    obtain ⟨j, hj⟩ := (hi.rows r hr).verifies
    have hid := hi.update hj samePayload_deliver (hi.rows r hr).delivery.deliver (by simp [hs]) hd
    obtain ⟨db', hdb'⟩ := hid.prune_returns
    refine ⟨db', bind_ok.mpr ⟨(), hi.verifyIfChanged audit, bind_ok.mpr ⟨r, hi.requiredRow hr, ?_⟩⟩⟩
    rw [if_neg (by simp [hs])]
    exact bind_ok.mpr ⟨d, hd, hdb'⟩

theorem backoff_mag_lt (attempts : ℕ) : (backoff attempts).mag < 2 ^ Binary64.halfExponent := by
  have hexp : 2 ^ 12 * 2 ^ Double.unitExponent < 2 ^ Binary64.halfExponent := by
    rw [← Nat.pow_add]
    exact Nat.pow_lt_pow_right (by decide) (by decide)
  exact Nat.lt_of_le_of_lt (Nat.mul_le_mul_right _
    ((backoffSeconds_le attempts).trans (by decide : 3600 ≤ 2 ^ 12))) hexp

/-- The same for `retry`; its next attempt is always a finite time. -/
theorem retry_iff {db : Db Tag} (hi : Inv o db) {r : Row Tag} (hr : r ∈ db.rows)
    (hs : r.state = .leased) (audit : Bool) (owner error : Str) (now : Double) :
    (∃ db', o.retry audit r.itemId owner error now db = .ok db') ↔ owner = r.leaseOwner := by
  constructor
  · rintro ⟨db', h⟩
    obtain ⟨row, j, next, hmem, hid, -, -, ho, -⟩ := retry_ok h
    rw [← ho, Table.eq_of_key hi.ids hmem hr hid]
  · rintro rfl
    have hadd : (now.add (if decide (o.maxAttempts ≤ r.attempts + 1) then .zero
        else backoff (r.attempts + 1))).isSome = true := by
      refine Double.add_isSome ?_
      split
      · exact Nat.two_pow_pos _
      · exact backoff_mag_lt _
    obtain ⟨next, hnext⟩ := Option.isSome_iff_exists.mp hadd
    obtain ⟨d, hd⟩ := hi.updateState_returns hr
      (@samePayload_fail Tag r (decide (o.maxAttempts ≤ r.attempts + 1)) next error).itemId
    refine ⟨d, bind_ok.mpr ⟨(), hi.verifyIfChanged audit, bind_ok.mpr ⟨r, hi.requiredRow hr, ?_⟩⟩⟩
    rw [if_neg (by simp [hs])]
    simp only [hnext]
    exact hd

/-! ### What a claim hands out -/

/-- After the expiry loop the leased rows are those of before that were not expired. -/
theorem expire_leased : ∀ {l : List (Row Tag)} {d d' : Db Tag}, Inv o d →
    (∀ r ∈ l, r.state = .leased) → l.foldlM o.expireRow d = .ok d' →
      Inv o d' ∧ ∀ r ∈ d'.rows, r.state = .leased → r ∈ d.rows ∧ r ∉ l
  | [], d, d', hi, _, h => by
    obtain rfl := Except.ok.inj h
    exact ⟨hi, fun r hr _ => ⟨hr, by simp⟩⟩
  | raw :: l, d, d', hi, hl, h => by
    rw [List.foldlM_cons] at h
    obtain ⟨c, hc, h⟩ := bind_ok.mp h
    obtain ⟨hic, -, hrows⟩ := expireRow_ok hi (hl raw List.mem_cons_self) hc
    obtain ⟨hi', hall⟩ := expire_leased hic (fun r hr => hl r (List.mem_cons_of_mem _ hr)) h
    refine ⟨hi', fun r hr hs => ?_⟩
    obtain ⟨hrc, hrl⟩ := hall r hr hs
    rcases (hrows r).mp hrc with rfl | ⟨hrd, hne⟩
    · simp [DurableOutbox.sign, Row.release] at hs
    · exact ⟨hrd, by simp [hne, hrl]⟩

/-- A row leased after a claim has the deadline of this claim or was leased before and is live. -/
theorem claim_leased {audit : Bool} {owner : Str} {now : Double} {limit : ℤ} {lease : PyFloat}
    {db db' : Db Tag} {items : List (OutboxItem J)} (hi : Inv o db)
    (h : o.claim audit owner now limit lease db = .ok (db', items)) :
    ∀ r ∈ db'.rows, r.state = .leased → (r ∈ db.rows ∧ now < r.leaseUntil) ∨
      now.add (clampLease lease) = some r.leaseUntil := by
  obtain ⟨hw, d, hd, hd', -⟩ := claim_ok h
  obtain ⟨hid, hold⟩ := expire_leased hi (fun r hr => (mem_expired.mp hr).2.1) hd
  have hnew := foldlM_invariant (I := fun c => Inv o c ∧ ∀ r ∈ c.rows, r.state = .leased →
      r ∈ d.rows ∨ now.add (clampLease lease) = some r.leaseUntil) (by
    rintro c raw c' hraw ⟨hc, hI⟩ hbody
    obtain ⟨hc', -, deadline, hadd, hrows⟩ := leaseRow_ok hw (workerOf_length owner)
      (clampLease_ne lease) hc (of_mem_ready hraw).2.1 hbody
    refine ⟨hc', fun r hr hs => ?_⟩
    rcases (hrows r).mp hr with rfl | ⟨hrc, -⟩
    · exact Or.inr hadd
    · exact hI r hrc hs) ⟨hid, fun r hr _ => Or.inl hr⟩ hd'
  intro r hr hs
  rcases hnew.2 r hr hs with hrd | hadd
  · obtain ⟨hrdb, hne⟩ := hold r hrd hs
    refine Or.inl ⟨hrdb, ?_⟩
    rw [← Double.not_le]
    exact fun hle => hne (mem_expired.mpr ⟨hrdb, hs, hle⟩)
  · exact Or.inr hadd

/-- Every item of a claim is a row leased to the claimer's normal form. -/
theorem claim_items {audit : Bool} {owner : Str} {now : Double} {limit : ℤ} {lease : PyFloat}
    {db db' : Db Tag} {items : List (OutboxItem J)}
    (h : o.claim audit owner now limit lease db = .ok (db', items)) {item : OutboxItem J}
    (hitem : item ∈ items) :
    ∃ r ∈ db'.rows, r.itemId = item.itemId ∧ r.state = .leased ∧ r.leaseOwner = workerOf owner := by
  obtain ⟨-, d, -, -, hitems⟩ := claim_ok h
  obtain ⟨r, hr, hri⟩ := of_mem_mapM hitems hitem
  obtain ⟨hmem, hs, ho⟩ := of_mem_held hr
  obtain ⟨payload, -, hri⟩ := bind_ok.mp hri
  exact ⟨r, hmem, by rw [← Except.ok.inj hri], hs, ho⟩

/-! ### A lease until its deadline -/

/-- The call settles the item for the owner. -/
def Call.Settles (itemId owner : Str) : Call P → Prop
  | .acknowledge i w => i = itemId ∧ w = owner
  | .retry i w _ _ => i = itemId ∧ w = owner
  | .completePending i => i = itemId
  | _ => False

/-- The clock of a claim has not passed `t`. -/
def Call.ClaimsBy (t : Double) : Call P → Prop
  | .claim _ now _ _ => now ≤ t
  | _ => True

/-- A claim before the deadline of a leased row leaves the row alone. -/
theorem claim_keeps {audit : Bool} {owner : Str} {now : Double} {limit : ℤ} {lease : PyFloat}
    {db db' : Db Tag} {items : List (OutboxItem J)} (hi : Inv o db) {r : Row Tag} (hr : r ∈ db.rows)
    (hs : r.state = .leased) (hlive : now < r.leaseUntil)
    (h : o.claim audit owner now limit lease db = .ok (db', items)) : r ∈ db'.rows := by
  obtain ⟨hw, d, hd, hd', -⟩ := claim_ok h
  have hmid := foldlM_invariant (I := fun c => Inv o c ∧ r ∈ c.rows) (by
    rintro c raw c' hraw ⟨hc, hrc⟩ hbody
    obtain ⟨-, hsraw, hle⟩ := mem_expired.mp hraw
    obtain ⟨hc', -, hrows⟩ := expireRow_ok hc hsraw hbody
    refine ⟨hc', (hrows r).mpr (Or.inr ⟨hrc, ?_⟩)⟩
    rintro rfl
    exact Double.not_le.mpr hlive hle) ⟨hi, hr⟩ hd
  refine (foldlM_invariant (I := fun c => Inv o c ∧ r ∈ c.rows) ?_ hmid hd').2
  rintro c raw c' hraw ⟨hc, hrc⟩ hbody
  obtain ⟨-, hsraw, -⟩ := of_mem_ready hraw
  obtain ⟨hc', -, _, -, hrows⟩ := leaseRow_ok hw (workerOf_length owner) (clampLease_ne lease) hc
    hsraw hbody
  refine ⟨hc', (hrows r).mpr (Or.inr ⟨hrc, ?_⟩)⟩
  rintro rfl
  simp [hs] at hsraw

/-- Pruning leaves a live row alone. -/
theorem prune_keeps {db db' : Db Tag} (hi : Inv o db) {r : Row Tag} (hr : r ∈ db.rows)
    (hs : r.state ≠ .delivered) (h : o.pruneTombstones db = .ok db') : r ∈ db'.rows := by
  refine (foldlM_invariant (I := fun c => Inv o c ∧ r ∈ c.rows) ?_ ⟨hi, hr⟩ h).2
  rintro c raw c' hraw ⟨hc, hrc⟩ hbody
  have hdone := (mem_tombstones.mp (List.mem_of_mem_drop hraw)).2
  obtain ⟨-, hiff, -, hrows⟩ := deleteVersion_ok hc hbody
  refine ⟨hc.delete hdone hbody, ?_⟩
  rw [hrows]
  refine Table.mem_delete.mpr ⟨hrc, ?_⟩
  rw [← Bool.not_eq_true, hiff r hrc]
  rintro rfl
  exact hs hdone

/-- Settling another row leaves a live row alone. -/
theorem settle_keeps {db d db' : Db Tag} {row r : Row Tag} {j : J} (hi : Inv o db)
    (hmem : row ∈ db.rows) (hj : o.verifyRow row = .ok j) (hlive : row.state ≠ .delivered)
    (hd : o.updateState db row row.deliver = .ok d) (h : o.pruneTombstones d = .ok db')
    (hr : r ∈ db.rows) (hs : r.state = .leased) (hne : r ≠ row) : r ∈ db'.rows := by
  have hdel := (hi.rows row hmem).delivery.deliver
  have hid := hi.update hj samePayload_deliver hdel hlive hd
  have hrd : r ∈ d.rows :=
    (mem_updateState hi.rows hj samePayload_deliver hdel hd).mpr (Or.inr ⟨hr, hne⟩)
  exact prune_keeps hid hrd (by simp [hs]) h

omit [DecidableEq Tag] in
theorem insert_keeps {db : Db Tag} {row r : Row Tag} (hr : r ∈ db.rows) :
    r ∈ (db.insert row).rows := List.mem_append_left _ hr

omit [DecidableEq Tag] in
theorem insertAll_keeps {r : Row Tag} {rows : List (Row Tag)} {db : Db Tag} (hr : r ∈ db.rows) :
    r ∈ (rows.foldl Db.insert db).rows := by
  induction rows generalizing db with
  | nil => exact hr
  | cons row rows ih => exact ih (insert_keeps hr)

/-- A step that does not settle a live lease leaves its row as it is. -/
theorem step_keeps {db db' : Db Tag} {call : Bool × Call P} (hi : Inv o db) {r : Row Tag}
    (hr : r ∈ db.rows) (hs : r.state = .leased) {t : Double} (ht : t < r.leaseUntil)
    (hclock : call.2.ClaimsBy t) (hset : ¬call.2.Settles r.itemId r.leaseOwner)
    (h : o.Step db call db') : r ∈ db'.rows := by
  rcases h with h | ⟨_, -, rfl⟩
  swap
  · exact hr
  have hlive : r.state ≠ .delivered := by simp [hs]
  obtain ⟨audit, call⟩ := call
  cases call with
  | enqueue itemId payload now =>
    obtain ⟨⟨d, new⟩, hcall, rfl⟩ := map_ok.mp h
    obtain ⟨row, -, h⟩ := bind_ok.mp hcall
    obtain ⟨_, -, h⟩ := bind_ok.mp h
    split at h
    · obtain ⟨_, -, h⟩ := bind_ok.mp h
      exact (Prod.mk.inj (Except.ok.inj h)).1 ▸ hr
    · obtain ⟨c, hc, h⟩ := bind_ok.mp h
      simp only [capacityError, if_error_ok, Except.ok.injEq, Prod.mk.injEq] at h
      exact h.2.1 ▸ insert_keeps (prune_keeps hi hr hlive hc)
  | enqueueMany entries =>
    obtain ⟨⟨d, count⟩, hcall, rfl⟩ := map_ok.mp h
    simp only [DurableOutbox.enqueueMany, if_error_ok] at hcall
    obtain ⟨-, h⟩ := hcall
    obtain ⟨prepared, -, h⟩ := bind_ok.mp h
    split at h
    · exact (Prod.mk.inj (Except.ok.inj h)).1 ▸ hr
    obtain ⟨_, -, h⟩ := bind_ok.mp h
    obtain ⟨additions, -, h⟩ := bind_ok.mp h
    split at h
    · exact (Prod.mk.inj (Except.ok.inj h)).1 ▸ hr
    obtain ⟨c, hc, h⟩ := bind_ok.mp h
    simp only [capacityError, if_error_ok, Except.ok.injEq, Prod.mk.injEq] at h
    exact h.2.1 ▸ insertAll_keeps (prune_keeps hi hr hlive hc)
  | claim owner now limit lease =>
    obtain ⟨⟨d, items⟩, hcall, rfl⟩ := map_ok.mp h
    exact claim_keeps hi hr hs (Double.lt_of_le_of_lt hclock ht) hcall
  | acknowledge itemId owner =>
    obtain ⟨_, -, h⟩ := bind_ok.mp h
    obtain ⟨row, hrow, h⟩ := bind_ok.mp h
    obtain ⟨hmem, hid, j, hj⟩ := requiredRow_ok hrow
    simp only [if_error_ok, not_or, not_not] at h
    obtain ⟨⟨hrs, hro⟩, h⟩ := h
    obtain ⟨d, hd, h⟩ := bind_ok.mp h
    refine settle_keeps hi hmem hj (by simp [hrs]) hd h hr hs ?_
    rintro rfl
    exact hset ⟨hid.symm, hro.symm⟩
  | retry itemId owner error now =>
    obtain ⟨row, j, next, hmem, hid, hj, hrs, hro, hnext, hupd⟩ := retry_ok h
    have hdel := (hi.rows row hmem).delivery.fail hrs hnext error
    refine (mem_updateState hi.rows hj (samePayload_fail _ next error) hdel hupd).mpr
      (Or.inr ⟨hr, ?_⟩)
    rintro rfl
    exact hset ⟨hid.symm, hro.symm⟩
  | completePending itemId =>
    obtain ⟨_, -, h⟩ := bind_ok.mp h
    obtain ⟨row, hrow, h⟩ := bind_ok.mp h
    obtain ⟨hmem, hid, j, hj⟩ := requiredRow_ok hrow
    simp only [if_error_ok] at h
    obtain ⟨hrs, h⟩ := h
    obtain ⟨d, hd, h⟩ := bind_ok.mp h
    refine settle_keeps hi hmem hj (fun he => hrs (by simp [he])) hd h hr hs ?_
    rintro rfl
    exact hset hid.symm

/-- Along a run of such steps the row stays as it is. -/
theorem run_keeps {db db' : Db Tag} {calls : List (Bool × Call P)}
    (h : Transition.Run o.StampedStep db calls db') (hi : Inv o db) {r : Row Tag} (hr : r ∈ db.rows)
    (hs : r.state = .leased) {t : Double} (ht : t < r.leaseUntil)
    (hclock : ∀ call ∈ calls, call.2.ClaimsBy t)
    (hset : ∀ call ∈ calls, ¬call.2.Settles r.itemId r.leaseOwner) : Inv o db' ∧ r ∈ db'.rows := by
  induction h with
  | nil => exact ⟨hi, hr⟩
  | @snoc ls t u a _ hstep ih =>
    obtain ⟨hit, hrt⟩ := ih (fun c hc => hclock c (List.mem_append_left _ hc))
      (fun c hc => hset c (List.mem_append_left _ hc))
    exact ⟨hit.step hstep, step_keeps hit hrt hs ht (hclock a (by simp)) (hset a (by simp)) hstep.2⟩

/-- No live lease on the item ends before `deadline`. -/
def NoShorterLease (db : Db Tag) (itemId : Str) (now deadline : Double) : Prop :=
  ∀ r ∈ db.rows, r.itemId = itemId → r.state = .leased → now < r.leaseUntil →
    deadline ≤ r.leaseUntil

/-- CORRECT: a claimed item can be settled under the claiming string, as long as its row is
    unchanged, exactly when the string is its own normal form; and then, unless the claim handed out
    a live lease with an earlier deadline again, nobody else is handed the item before the deadline
    while the claimer has not settled it. -/
theorem claim_exclusive {db db₁ : Db Tag} {calls : List (Bool × Call P)} {audit : Bool}
    {owner : Str} {now : Double} {limit : ℤ} {lease : PyFloat} {items : List (OutboxItem J)}
    {item : OutboxItem J} (hrun : Transition.Run o.StampedStep Db.empty calls db)
    (hclaim : o.claim audit owner now limit lease db = .ok (db₁, items)) (hitem : item ∈ items) :
    (∀ calls₂ db₂ row, Transition.Run o.StampedStep db₁ calls₂ db₂ → row ∈ db₁.rows →
      row.itemId = item.itemId → row ∈ db₂.rows → ∀ audit₂,
        ((∃ d, o.acknowledge audit₂ item.itemId owner db₂ = .ok d) ↔ owner = workerOf owner) ∧
          ∀ error t, (∃ d, o.retry audit₂ item.itemId owner error t db₂ = .ok d) ↔
            owner = workerOf owner) ∧
      ∀ deadline, owner = workerOf owner → now.add (clampLease lease) = some deadline →
        NoShorterLease db item.itemId now deadline →
        ∀ calls₂ db₂ t, Transition.Run o.StampedStep db₁ calls₂ db₂ →
          (∀ call ∈ calls₂, call.2.ClaimsBy t) →
          (∀ call ∈ calls₂, ¬call.2.Settles item.itemId owner) → t < deadline →
          ∀ audit₂ other limit₂ lease₂ db₃ items₂, workerOf other ≠ workerOf owner →
            o.claim audit₂ other t limit₂ lease₂ db₂ = .ok (db₃, items₂) →
              ∀ item₂ ∈ items₂, item₂.itemId ≠ item.itemId := by
  have hi := Inv.run hrun
  have hi₁ := hi.claim hclaim
  obtain ⟨r, hr, hid, hs, hown⟩ := claim_items hclaim hitem
  refine ⟨?_, ?_⟩
  · intro calls₂ db₂ row hrun₂ hrow hrid hrow₂ audit₂
    obtain rfl := Table.eq_of_key hi₁.ids hrow hr (hrid.trans hid.symm)
    have hi₂ := hrun₂.invariant (fun _ _ _ h hs => h.step hs) hi₁
    refine ⟨?_, fun error t => ?_⟩
    · rw [← hid, acknowledge_iff hi₂ hrow₂ hs, hown]
    · rw [← hid, retry_iff hi₂ hrow₂ hs, hown]
  · intro deadline hnorm hadd hlonger calls₂ db₂ t hrun₂ hclock hset ht audit₂ other limit₂ lease₂
      db₃ items₂ hother hclaim₂ item₂ hitem₂ heq
    have hdl : deadline ≤ r.leaseUntil := by
      rcases claim_leased hi hclaim r hr hs with ⟨hrdb, hlive⟩ | hnew
      · exact hlonger r hrdb hid hs hlive
      · rw [hadd] at hnew
        exact Option.some.inj hnew ▸ Int.le_refl _
    have hlive : t < r.leaseUntil := Double.lt_of_lt_of_le ht hdl
    have hset' : ∀ call ∈ calls₂, ¬call.2.Settles r.itemId r.leaseOwner := by
      rw [hid, hown, ← hnorm]
      exact hset
    obtain ⟨hi₂, hr₂⟩ := run_keeps hrun₂ hi₁ hr hs hlive hclock hset'
    have hr₃ := claim_keeps hi₂ hr₂ hs hlive hclaim₂
    obtain ⟨r', hr', hid', -, hown'⟩ := claim_items hclaim₂ hitem₂
    obtain rfl := Table.eq_of_key (hi₂.claim hclaim₂).ids hr' hr₃ (by rw [hid', heq, hid])
    exact hother (hown'.symm.trans hown)

/-! ### Concrete claims -/

/-- The table after one item was enqueued. -/
def oneItem : Db SymTag :=
  ⟨[(symbolicOutbox.sign ⟨"x".toList, "\x7b\x7d".toList, "\x7b\x7d".toList,
    .payload "x".toList "\x7b\x7d".toList .zero, .pending, 0, .zero, [], .zero, [], .zero, 2,
    .payload "x".toList "\x7b\x7d".toList .zero⟩)], [("x".toList, .pending)]⟩

theorem run_oneItem : Transition.Run symbolicOutbox.StampedStep Db.empty
    [(false, .enqueue "x".toList () .zero)] oneItem :=
  Transition.Run.single ⟨Or.inl Double.zero_ne_negZero, Or.inl rfl⟩

/-- A test on the result of a call that returned. -/
theorem exists_ok {ε α : Type} {x : Except ε α} {p : α → Bool}
    (h : x.toOption.any p = true) : ∃ a, x = .ok a ∧ p a = true := by
  cases x with
  | error e => simp [Except.toOption] at h
  | ok a => exact ⟨a, rfl, by simpa [Except.toOption] using h⟩

theorem claim_exclusive_worker : ∃ db₁ item, symbolicOutbox.claim false "w".toList .zero 1 .nan
    oneItem = .ok (db₁, [item]) ∧
      ∃ d, symbolicOutbox.acknowledge false item.itemId "w".toList db₁ = .ok d := by
  obtain ⟨⟨db₁, items⟩, hclaim, hlen⟩ := exists_ok (p := fun a => a.2.length = 1)
    (show (symbolicOutbox.claim false "w".toList .zero 1 .nan oneItem).toOption.any _ = true by
      decide +kernel)
  obtain ⟨item, rfl⟩ := List.length_eq_one_iff.mp (of_decide_eq_true hlen)
  obtain ⟨r, hr, hid, -⟩ := claim_items hclaim (List.mem_singleton_self item)
  have hsettle := (claim_exclusive run_oneItem hclaim (List.mem_singleton_self item)).1
    [] db₁ r .nil hr hid hr false
  exact ⟨db₁, item, hclaim, hsettle.1.mpr (by decide)⟩

def seconds (n : ℕ) (h : n ≤ 2 ^ 53) : Double := .ofNat n h

/-- The owner ` a` is handed an item that it cannot acknowledge. And worker `a`, handed the item at
    0 s and again at 29 s for 30 s, loses it to `b` at 31 s. -/
theorem claim_not_exclusive :
    (∃ db₁ item, symbolicOutbox.claim false " a".toList .zero 1 .nan oneItem = .ok (db₁, [item]) ∧
      ∀ audit d, symbolicOutbox.acknowledge audit item.itemId " a".toList db₁ ≠ .ok d) ∧
    ∃ db₁ db₂ db₃ item₁ item₂ item₃ deadline,
      symbolicOutbox.claim false "a".toList .zero 1 (.finite (seconds 30 (by decide))) oneItem =
        .ok (db₁, [item₁]) ∧
      symbolicOutbox.claim false "a".toList (seconds 29 (by decide)) 1
        (.finite (seconds 30 (by decide))) db₁ = .ok (db₂, [item₂]) ∧
      (seconds 29 (by decide)).add (seconds 30 (by decide)) = some deadline ∧
      seconds 31 (by decide) < deadline ∧
      symbolicOutbox.claim false "b".toList (seconds 31 (by decide)) 1 .nan db₂ =
        .ok (db₃, [item₃]) ∧ item₃.itemId = item₂.itemId := by
  constructor
  · obtain ⟨⟨db₁, items⟩, hclaim, hlen⟩ := exists_ok (p := fun a => a.2.length = 1)
      (show (symbolicOutbox.claim false " a".toList .zero 1 .nan oneItem).toOption.any _ = true by
        decide +kernel)
    obtain ⟨item, rfl⟩ := List.length_eq_one_iff.mp (of_decide_eq_true hlen)
    obtain ⟨r, hr, hid, hs, hown⟩ := claim_items hclaim (List.mem_singleton_self item)
    refine ⟨db₁, item, hclaim, fun audit d hack => ?_⟩
    have howner := (acknowledge_iff ((Inv.run run_oneItem).claim hclaim) hr hs audit _).mp
      ⟨d, hid ▸ hack⟩
    rw [hown] at howner
    exact absurd howner (by decide)
  · obtain ⟨⟨⟨db₁, i₁⟩, ⟨db₂, i₂⟩, ⟨db₃, i₃⟩⟩, hrun, hp⟩ := exists_ok
      (x := do
        let a ← symbolicOutbox.claim false "a".toList .zero 1
          (.finite (seconds 30 (by decide))) oneItem
        let b ← symbolicOutbox.claim false "a".toList (seconds 29 (by decide)) 1
          (.finite (seconds 30 (by decide))) a.1
        let c ← symbolicOutbox.claim false "b".toList (seconds 31 (by decide)) 1 .nan b.1
        pure (a, b, c))
      (p := fun r => (r.1.2.length = 1 ∧ r.2.1.2.length = 1 ∧ r.2.2.2.length = 1 ∧
        r.2.2.2.map (·.itemId) = r.2.1.2.map (·.itemId) : Bool)) (by decide +kernel)
    obtain ⟨⟨db₁, i₁⟩, ha, hrun⟩ := bind_ok.mp hrun
    obtain ⟨⟨db₂, i₂⟩, hb, hrun⟩ := bind_ok.mp hrun
    obtain ⟨⟨db₃, i₃⟩, hc, hrun⟩ := bind_ok.mp hrun
    simp only [pure, Except.pure, Except.ok.injEq, Prod.mk.injEq] at hrun
    obtain ⟨⟨rfl, rfl⟩, ⟨rfl, rfl⟩, rfl, rfl⟩ := hrun
    obtain ⟨h₁, h₂, h₃, hid⟩ := of_decide_eq_true hp
    obtain ⟨item₁, rfl⟩ := List.length_eq_one_iff.mp h₁
    obtain ⟨item₂, rfl⟩ := List.length_eq_one_iff.mp h₂
    obtain ⟨item₃, rfl⟩ := List.length_eq_one_iff.mp h₃
    have hdl : ((seconds 29 (by decide)).add (seconds 30 (by decide))).any
        (fun d => seconds 31 (by decide) < d) = true := by decide +kernel
    obtain ⟨deadline, hadd, hlt⟩ := (Option.any_eq_true _ _).mp hdl
    exact ⟨db₁, db₂, db₃, item₁, item₂, item₃, deadline, ha, hb, hadd, of_decide_eq_true hlt, hc,
      (List.cons.inj hid).1⟩

end Angerona.Outbox
