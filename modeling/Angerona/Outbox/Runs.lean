import Angerona.Outbox.Invariant

/-!
    The operations of the outbox and its runs.

    Each operation is a few statements, so it keeps the invariant by the lemma of each statement in
    turn. The one exception is a row inserted under the stamp `-0.0`: its tag covers `-0.0` while
    the column gives `0.0` back. -/

namespace Angerona.Outbox
open Text Raising

variable {Tag P J : Type} [DecidableEq Tag] {o : DurableOutbox Tag P J}

/-! ### Delivery columns after each change -/

section Changes

variable {row : Row Tag}

omit [DecidableEq Tag] in
theorem DeliveryOk.release (h : DeliveryOk o row) (hs : row.state = .leased) :
    DeliveryOk o row.release :=
  ⟨h.attempts_le, fun _ => h.attempts_lt (Or.inr hs), Nat.zero_le _, h.error_len,
    by simp [Row.release], fun _ => rfl, fun he => by simp [Row.release] at he, h.next_ne,
    Double.zero_ne_negZero⟩

omit [DecidableEq Tag] in
theorem DeliveryOk.lease (h : DeliveryOk o row) (hs : row.state = .pending) {worker : Str}
    (hw : worker ≠ []) (hlen : worker.length ≤ 160) {deadline : Double}
    (hd : deadline ≠ .negZero) : DeliveryOk o (row.lease worker deadline) :=
  ⟨h.attempts_le, fun _ => h.attempts_lt (Or.inl hs), hlen, h.error_len, by simp [Row.lease, hw],
    fun hn => absurd rfl hn, fun he => by simp [Row.lease] at he, h.next_ne, hd⟩

omit [DecidableEq Tag] in
theorem DeliveryOk.deliver (h : DeliveryOk o row) : DeliveryOk o row.deliver :=
  ⟨h.attempts_le, fun hs => by simp [Row.deliver] at hs, Nat.zero_le _, Nat.zero_le _,
    by simp [Row.deliver], fun _ => rfl, fun _ => rfl, h.next_ne, Double.zero_ne_negZero⟩

omit [DecidableEq Tag] in
theorem DeliveryOk.fail (h : DeliveryOk o row) (hs : row.state = .leased) {next : Double}
    (hn : next ≠ .negZero) (error : Str) :
    DeliveryOk o (row.fail (decide (o.maxAttempts ≤ row.attempts + 1)) next error) := by
  have hlt := h.attempts_lt (Or.inr hs)
  have hmax := o.maxAttempts_le
  refine ⟨?_, ?_, Nat.zero_le _, ?_, ?_, fun _ => rfl, ?_, hn, Double.zero_ne_negZero⟩
  · simp only [Row.fail]
    omega
  · intro hst
    by_cases hd : o.maxAttempts ≤ row.attempts + 1
    · simp [Row.fail, hd] at hst
    · simp only [Row.fail]
      omega
  · simp [Row.fail, List.length_take]
  · by_cases hd : o.maxAttempts ≤ row.attempts + 1
    · simp [Row.fail, hd]
    · simp [Row.fail, hd]
  · intro hst
    by_cases hd : o.maxAttempts ≤ row.attempts + 1
    · simp [Row.fail, hd] at hst
    · simp [Row.fail, hd] at hst

omit [DecidableEq Tag] in
theorem samePayload_release : SamePayload row.release row := ⟨rfl, rfl, rfl, rfl, rfl, rfl⟩

omit [DecidableEq Tag] in
theorem samePayload_lease (worker : Str) (deadline : Double) :
    SamePayload (row.lease worker deadline) row := ⟨rfl, rfl, rfl, rfl, rfl, rfl⟩

omit [DecidableEq Tag] in
theorem samePayload_deliver : SamePayload row.deliver row := ⟨rfl, rfl, rfl, rfl, rfl, rfl⟩

omit [DecidableEq Tag] in
theorem samePayload_fail (dead : Bool) (next : Double) (error : Str) :
    SamePayload (row.fail dead next error) row := ⟨rfl, rfl, rfl, rfl, rfl, rfl⟩

end Changes

theorem negZero_le_oneSecond : Double.negZero ≤ oneSecond := by
  rw [Double.le_def]
  exact Int.natCast_nonneg _

theorem oneSecond_ne : oneSecond ≠ .negZero := Double.ofNat_ne_negZero 1 (by decide)

theorem oneHour_ne : oneHour ≠ .negZero := Double.ofNat_ne_negZero 3600 (by decide)

theorem clampLease_ne (lease : PyFloat) : clampLease lease ≠ .negZero := by
  cases lease with
  | finite d =>
    simp only [clampLease]
    split
    · exact oneHour_ne
    · split
      · rename_i h
        rintro rfl
        exact Double.not_lt.mpr negZero_le_oneSecond h
      · exact oneSecond_ne
  | inf => exact oneHour_ne
  | negInf => exact oneSecond_ne
  | nan => exact oneSecond_ne

theorem workerOf_length (owner : Str) : (workerOf owner).length ≤ 160 := by
  rw [workerOf, List.length_take]
  exact Nat.min_le_left _ _

/-! ### Claim -/

/-- What the body of the expiry loop does to a row that was read as leased. -/
theorem expireRow_ok {db db' : Db Tag} {raw : Row Tag} (hi : Inv o db) (hs : raw.state = .leased)
    (h : o.expireRow db raw = .ok db') :
    Inv o db' ∧ raw ∈ db.rows ∧
      ∀ r, r ∈ db'.rows ↔ r = o.sign raw.release ∨ (r ∈ db.rows ∧ r ≠ raw) := by
  obtain ⟨j, hj, h⟩ := bind_ok.mp h
  obtain ⟨hmem, -⟩ := updateState_ok hi.rows hj samePayload_release.itemId h
  have hd := (hi.rows raw hmem).delivery.release hs
  exact ⟨hi.update hj samePayload_release hd (by simp [hs]) h, hmem,
    fun r => mem_updateState hi.rows hj samePayload_release hd h⟩

/-- What the body of the lease loop does to a row that was read as pending. -/
theorem leaseRow_ok {db db' : Db Tag} {raw : Row Tag} {worker : Str} {stamp lease : Double}
    (hw : worker ≠ []) (hlen : worker.length ≤ 160) (hl : lease ≠ .negZero) (hi : Inv o db)
    (hs : raw.state = .pending) (h : o.leaseRow worker stamp lease db raw = .ok db') :
    Inv o db' ∧ raw ∈ db.rows ∧ ∃ deadline, stamp.add lease = some deadline ∧
      ∀ r, r ∈ db'.rows ↔ r = o.sign (raw.lease worker deadline) ∨ (r ∈ db.rows ∧ r ≠ raw) := by
  obtain ⟨j, hj, h⟩ := bind_ok.mp h
  cases hadd : stamp.add lease with
  | none => simp [hadd] at h
  | some deadline =>
    simp only [hadd] at h
    have hsame := @samePayload_lease Tag raw worker deadline
    obtain ⟨hmem, -⟩ := updateState_ok hi.rows hj hsame.itemId h
    have hd := (hi.rows raw hmem).delivery.lease hs hw hlen (Double.add_ne_negZero hl hadd)
    exact ⟨hi.update hj hsame hd (by simp [hs]) h, hmem, deadline, rfl,
      fun r => mem_updateState hi.rows hj hsame hd h⟩

omit [DecidableEq Tag] in
theorem mem_expired {stamp : Double} {rows : List (Row Tag)} {r : Row Tag} :
    r ∈ expired stamp rows ↔ r ∈ rows ∧ r.state = .leased ∧ r.leaseUntil ≤ stamp := by
  simp [expired, List.mem_filter]

omit [DecidableEq Tag] in
theorem of_mem_ready {stamp : Double} {limit : ℕ} {rows : List (Row Tag)} {r : Row Tag}
    (h : r ∈ ready stamp limit rows) : r ∈ rows ∧ r.state = .pending ∧ r.nextAttempt ≤ stamp := by
  have h := List.mem_of_mem_take h
  rw [ordered, List.mem_insertionSort, List.mem_filter] at h
  simpa using h

omit [DecidableEq Tag] in
theorem of_mem_held {worker : Str} {limit : ℕ} {rows : List (Row Tag)} {r : Row Tag}
    (h : r ∈ held worker limit rows) : r ∈ rows ∧ r.state = .leased ∧ r.leaseOwner = worker := by
  have h := List.mem_of_mem_take h
  rw [ordered, List.mem_insertionSort, List.mem_filter] at h
  simpa using h

/-- The stages of a successful claim. -/
theorem claim_ok {audit : Bool} {owner : Str} {now : Double} {limit : ℤ} {lease : PyFloat}
    {db db' : Db Tag} {items : List (OutboxItem J)}
    (h : o.claim audit owner now limit lease db = .ok (db', items)) :
    workerOf owner ≠ [] ∧ ∃ d, (expired now db.rows).foldlM o.expireRow db = .ok d ∧
      (ready now (clamp 1 1000 limit) d.rows).foldlM
        (o.leaseRow (workerOf owner) now (clampLease lease)) d = .ok db' ∧
      (held (workerOf owner) (clamp 1 1000 limit) db'.rows).mapM o.asItem = .ok items := by
  simp only [DurableOutbox.claim, if_error_ok] at h
  obtain ⟨hw, h⟩ := h
  obtain ⟨_, -, h⟩ := bind_ok.mp h
  obtain ⟨d, hd, h⟩ := bind_ok.mp h
  obtain ⟨d', hd', h⟩ := bind_ok.mp h
  obtain ⟨items', hitems, h⟩ := bind_ok.mp h
  obtain ⟨rfl, rfl⟩ := Prod.mk.inj (Except.ok.inj h)
  exact ⟨hw, d, hd, hd', hitems⟩

theorem Inv.claim {audit : Bool} {owner : Str} {now : Double} {limit : ℤ} {lease : PyFloat}
    {db db' : Db Tag} {items : List (OutboxItem J)} (hi : Inv o db)
    (h : o.claim audit owner now limit lease db = .ok (db', items)) : Inv o db' := by
  obtain ⟨hw, d, hd, hd', -⟩ := claim_ok h
  have hid : Inv o d := foldlM_invariant
    (fun b raw b' hraw hb hbody => (expireRow_ok hb (mem_expired.mp hraw).2.1 hbody).1) hi hd
  exact foldlM_invariant (fun b raw b' hraw hb hbody => (leaseRow_ok hw (workerOf_length owner)
    (clampLease_ne lease) hb (of_mem_ready hraw).2.1 hbody).1) hid hd'

/-! ### Enqueue -/

omit [DecidableEq Tag] in
theorem findRow_none {db : Db Tag} {itemId : Str} (h : findRow db itemId = none) :
    ∀ r ∈ db.rows, r.itemId ≠ itemId := by
  simpa [findRow] using h

omit [DecidableEq Tag] in
theorem findRow_some {db : Db Tag} {itemId : Str} {r : Row Tag} (h : findRow db itemId = some r) :
    r ∈ db.rows ∧ r.itemId = itemId :=
  ⟨List.mem_of_find?_eq_some h, by simpa using List.find?_some h⟩

/-- The stamp of an item is no negative zero, unless the table has the item already. -/
def Stamped (db : Db Tag) (itemId : Str) (now : Double) : Prop :=
  now ≠ .negZero ∨ ∃ r ∈ db.rows, r.itemId = strip itemId

theorem Inv.enqueue {audit : Bool} {itemId : Str} {payload : P} {now : Double}
    {db db' : Db Tag} {new : Bool} (hi : Inv o db) (hst : Stamped db itemId now)
    (h : o.enqueue audit itemId payload now db = .ok (db', new)) : Inv o db' := by
  obtain ⟨row, hrow, h⟩ := bind_ok.mp h
  obtain ⟨_, -, h⟩ := bind_ok.mp h
  obtain ⟨hid, hpend, hgood⟩ := prepare_ok hrow
  split at h
  · obtain ⟨_, -, h⟩ := bind_ok.mp h
    exact (Prod.mk.inj (Except.ok.inj h)).1 ▸ hi
  · rename_i hnone
    have hfree := findRow_none hnone
    obtain ⟨d, hd, h⟩ := bind_ok.mp h
    obtain ⟨hid', hsub⟩ := hi.prune hd
    simp only [capacityError, if_error_ok, not_or, not_le, not_lt, Except.ok.injEq,
      Prod.mk.injEq] at h
    obtain ⟨⟨hitems, hbytes⟩, rfl, -⟩ := h
    rcases hst with hst | ⟨r, hr, hre⟩
    · obtain ⟨hok, hstored⟩ := hgood hst
      exact hid'.insert hok hstored (fun r hr => hfree r (hsub r hr)) hitems hbytes
    · exact absurd (hre.trans hid.symm) (hfree r hr)

omit [DecidableEq Tag] in
/-- The prepared batch holds one row an identifier, each prepared from an entry. -/
theorem prepared_ok {entries : List (Str × P × Double)} {prepared : List (Row Tag)}
    (h : entries.foldlM o.prepareEntry [] = .ok prepared) :
    (prepared.map (·.itemId)).Nodup ∧
      ∀ row ∈ prepared, ∃ e ∈ entries, o.prepare e.1 e.2.1 e.2.2 = .ok row := by
  refine foldlM_invariant (I := fun prepared => (prepared.map (·.itemId)).Nodup ∧
    ∀ row ∈ prepared, ∃ e ∈ entries, o.prepare e.1 e.2.1 e.2.2 = .ok row) ?_
    ⟨List.nodup_nil, by simp⟩ h
  rintro rows e rows' he ⟨hnd, hall⟩ hstep
  obtain ⟨row, hrow, hstep⟩ := bind_ok.mp hstep
  split at hstep
  · simp only [conflictError, if_error_ok, Except.ok.injEq] at hstep
    exact hstep.2 ▸ ⟨hnd, hall⟩
  · rename_i hnone
    obtain rfl := Except.ok.inj hstep
    have hfresh : ∀ r ∈ rows, r.itemId ≠ row.itemId := by simpa using hnone
    refine ⟨?_, fun r hr => ?_⟩
    · rw [List.map_append]
      refine List.nodup_append.mpr ⟨hnd, by simp, fun a ha b hb => ?_⟩
      obtain ⟨r, hr, rfl⟩ := List.mem_map.mp ha
      rw [List.map_singleton, List.mem_singleton] at hb
      exact hb ▸ hfresh r hr
    · rcases List.mem_append.mp hr with hr | hr
      · exact hall r hr
      · exact ⟨e, he, List.mem_singleton.mp hr ▸ hrow⟩

/-- The additions are the prepared rows whose identifier the table does not have. -/
theorem additions_ok {db : Db Tag} : ∀ {prepared acc additions : List (Row Tag)},
    prepared.foldlM (o.addEntry db) acc = .ok additions →
      ∃ new, additions = acc ++ new ∧ new.Sublist prepared ∧
        ∀ row ∈ new, ∀ r ∈ db.rows, r.itemId ≠ row.itemId
  | [], acc, additions, h => by
    obtain rfl := Except.ok.inj h
    exact ⟨[], by simp, .slnil, by simp⟩
  | row :: prepared, acc, additions, h => by
    rw [List.foldlM_cons] at h
    obtain ⟨acc', hacc, h⟩ := bind_ok.mp h
    obtain ⟨new, rfl, hsub, hfree⟩ := additions_ok h
    rw [DurableOutbox.addEntry] at hacc
    split at hacc
    · obtain ⟨_, -, rfl⟩ := map_ok.mp hacc
      exact ⟨new, rfl, hsub.cons _, hfree⟩
    · rename_i hnone
      obtain rfl := Except.ok.inj hacc
      refine ⟨row :: new, by simp, hsub.cons_cons row, fun r hr => ?_⟩
      rcases List.mem_cons.mp hr with rfl | hr
      · exact findRow_none hnone
      · exact hfree r hr

theorem Inv.enqueueMany {audit : Bool} {entries : List (Str × P × Double)} {db db' : Db Tag}
    {count : ℕ} (hi : Inv o db) (hst : ∀ e ∈ entries, Stamped db e.1 e.2.2)
    (h : o.enqueueMany audit entries db = .ok (db', count)) : Inv o db' := by
  simp only [DurableOutbox.enqueueMany, if_error_ok] at h
  obtain ⟨-, h⟩ := h
  obtain ⟨prepared, hprep, h⟩ := bind_ok.mp h
  split at h
  · exact (Prod.mk.inj (Except.ok.inj h)).1 ▸ hi
  obtain ⟨_, -, h⟩ := bind_ok.mp h
  obtain ⟨additions, hadd, h⟩ := bind_ok.mp h
  split at h
  · exact (Prod.mk.inj (Except.ok.inj h)).1 ▸ hi
  obtain ⟨d, hd, h⟩ := bind_ok.mp h
  obtain ⟨hid, hsub⟩ := hi.prune hd
  simp only [capacityError, if_error_ok, not_or, not_lt, Except.ok.injEq, Prod.mk.injEq] at h
  obtain ⟨⟨hitems, hbytes⟩, rfl, -⟩ := h
  obtain ⟨hnd, hfrom⟩ := prepared_ok hprep
  obtain ⟨new, hnew, hsubl, hfree⟩ := additions_ok hadd
  rw [List.nil_append] at hnew
  subst hnew
  have hrow : ∀ row ∈ additions, row.state = .pending ∧ RowOk o row ∧ row.stored = row := by
    intro row hr
    obtain ⟨e, he, hprepare⟩ := hfrom row (hsubl.subset hr)
    obtain ⟨heid, hpend, hgood⟩ := prepare_ok hprepare
    rcases hst e he with hnow | ⟨r, hr', hre⟩
    · exact ⟨hpend, hgood hnow⟩
    · exact absurd (hre.trans heid.symm) (hfree row hr r hr')
  exact hid.insertAll (fun row hr => (hrow row hr).2) (hnd.sublist (hsubl.map _))
    (fun row hr r hr' => hfree row hr r (hsub r hr')) (fun row hr => by simp [(hrow row hr).1])
    hitems hbytes

/-! ### Settling -/

theorem requiredRow_ok {db : Db Tag} {itemId : Str} {row : Row Tag}
    (h : o.requiredRow db itemId = .ok row) :
    row ∈ db.rows ∧ row.itemId = itemId ∧ ∃ j, o.verifyRow row = .ok j := by
  rw [DurableOutbox.requiredRow] at h
  split at h
  · simp at h
  · rename_i raw hfind
    obtain ⟨j, hj, rfl⟩ := map_ok.mp h
    exact ⟨(findRow_some hfind).1, (findRow_some hfind).2, j, hj⟩

/-- Delivering a live row and pruning keeps the invariant and the tombstone bound. -/
theorem Inv.settle {db d db' : Db Tag} {row : Row Tag} {j : J} (hi : Inv o db)
    (hmem : row ∈ db.rows) (hj : o.verifyRow row = .ok j) (hlive : row.state ≠ .delivered)
    (hd : o.updateState db row row.deliver = .ok d) (h : o.pruneTombstones d = .ok db') :
    Inv o db' ∧ (db'.rows.filter isDelivered).length ≤ o.deliveredTombstones := by
  have hid := hi.update hj samePayload_deliver (hi.rows row hmem).delivery.deliver hlive hd
  exact ⟨(hid.prune h).1, prune_le hid h⟩

theorem Inv.acknowledge {audit : Bool} {itemId owner : Str} {db db' : Db Tag} (hi : Inv o db)
    (h : o.acknowledge audit itemId owner db = .ok db') :
    Inv o db' ∧ (db'.rows.filter isDelivered).length ≤ o.deliveredTombstones := by
  obtain ⟨_, -, h⟩ := bind_ok.mp h
  obtain ⟨row, hrow, h⟩ := bind_ok.mp h
  obtain ⟨hmem, -, j, hj⟩ := requiredRow_ok hrow
  simp only [if_error_ok, not_or, not_not] at h
  obtain ⟨⟨hs, -⟩, h⟩ := h
  obtain ⟨d, hd, h⟩ := bind_ok.mp h
  exact hi.settle hmem hj (by simp [hs]) hd h

theorem Inv.completePending {audit : Bool} {itemId : Str} {db db' : Db Tag} (hi : Inv o db)
    (h : o.completePending audit itemId db = .ok db') :
    Inv o db' ∧ (db'.rows.filter isDelivered).length ≤ o.deliveredTombstones := by
  obtain ⟨_, -, h⟩ := bind_ok.mp h
  obtain ⟨row, hrow, h⟩ := bind_ok.mp h
  obtain ⟨hmem, -, j, hj⟩ := requiredRow_ok hrow
  simp only [if_error_ok] at h
  obtain ⟨hs, h⟩ := h
  obtain ⟨d, hd, h⟩ := bind_ok.mp h
  exact hi.settle hmem hj (fun he => hs (by simp [he])) hd h

/-- What a successful retry does to the row it names. -/
theorem retry_ok {audit : Bool} {itemId owner error : Str} {now : Double} {db db' : Db Tag}
    (h : o.retry audit itemId owner error now db = .ok db') :
    ∃ row j next, row ∈ db.rows ∧ row.itemId = itemId ∧ o.verifyRow row = .ok j ∧
      row.state = .leased ∧ row.leaseOwner = owner ∧ next ≠ .negZero ∧
      o.updateState db row
        (row.fail (decide (o.maxAttempts ≤ row.attempts + 1)) next error) = .ok db' := by
  obtain ⟨_, -, h⟩ := bind_ok.mp h
  obtain ⟨row, hrow, h⟩ := bind_ok.mp h
  obtain ⟨hmem, hid, j, hj⟩ := requiredRow_ok hrow
  simp only [if_error_ok, not_or, not_not] at h
  obtain ⟨⟨hs, ho⟩, h⟩ := h
  split at h
  · simp at h
  · rename_i next hadd
    refine ⟨row, j, next, hmem, hid, hj, hs, ho, Double.add_ne_negZero ?_ hadd, h⟩
    split
    · exact Double.zero_ne_negZero
    · exact Double.ofNat_ne_negZero _ _

theorem Inv.retry {audit : Bool} {itemId owner error : Str} {now : Double} {db db' : Db Tag}
    (hi : Inv o db) (h : o.retry audit itemId owner error now db = .ok db') : Inv o db' := by
  obtain ⟨row, j, next, hmem, -, hj, hs, -, hnext, hupd⟩ := retry_ok h
  exact hi.update hj (samePayload_fail _ next error) ((hi.rows row hmem).delivery.fail hs hnext error)
    (by simp [hs]) hupd

/-! ### Runs -/

/-- No call stamps a new row with a negative zero. -/
def Call.Storable (db : Db Tag) : Call P → Prop
  | .enqueue itemId _ now => Stamped db itemId now
  | .enqueueMany entries => ∀ e ∈ entries, Stamped db e.1 e.2.2
  | _ => True

theorem Inv.commit {audit : Bool} {call : Call P} {db db' : Db Tag} (hi : Inv o db)
    (hst : call.Storable db) (h : o.commit audit db call = .ok db') : Inv o db' := by
  cases call with
  | enqueue itemId payload now =>
    obtain ⟨⟨d, new⟩, hd, rfl⟩ := map_ok.mp h
    exact hi.enqueue hst hd
  | enqueueMany entries =>
    obtain ⟨⟨d, count⟩, hd, rfl⟩ := map_ok.mp h
    exact hi.enqueueMany hst hd
  | claim owner now limit lease =>
    obtain ⟨⟨d, items⟩, hd, rfl⟩ := map_ok.mp h
    exact hi.claim hd
  | acknowledge itemId owner => exact (hi.acknowledge h).1
  | retry itemId owner error now => exact hi.retry h
  | completePending itemId => exact (hi.completePending h).1

/-- The steps of the outbox whose call stamps no new row with a negative zero. -/
def DurableOutbox.StampedStep (o : DurableOutbox Tag P J) :
    Db Tag → Bool × Call P → Db Tag → Prop :=
  Transition.Guarded (fun db call => call.2.Storable db) o.Step

theorem Inv.step {db db' : Db Tag} {call : Bool × Call P} (hi : Inv o db)
    (h : o.StampedStep db call db') : Inv o db' := by
  rcases h with ⟨hst, h | ⟨_, -, rfl⟩⟩
  · exact hi.commit hst h
  · exact hi

theorem Inv.run {db : Db Tag} {calls : List (Bool × Call P)}
    (h : Transition.Run o.StampedStep Db.empty calls db) : Inv o db :=
  h.invariant (fun _ _ _ hi hs => hi.step hs) inv_empty

/-- What every table of the outbox has to satisfy. -/
structure DurableOutbox.Healthy (o : DurableOutbox Tag P J) (db : Db Tag) : Prop where
  verified : ∀ r ∈ db.rows, ∃ j, o.verifyRow r = .ok j
  owner_iff : ∀ r ∈ db.rows, r.leaseOwner ≠ [] ↔ r.state = .leased
  attempts_lt : ∀ r ∈ db.rows, r.state = .pending ∨ r.state = .leased → r.attempts < o.maxAttempts
  items_le : (retained db.rows).length ≤ o.maxItems
  bytes_le : bytes (retained db.rows) ≤ o.maxBytes
  kept : db.Kept

theorem Inv.healthy {db : Db Tag} (hi : Inv o db) : o.Healthy db :=
  ⟨fun r hr => (hi.rows r hr).verifies, fun r hr => (hi.rows r hr).delivery.owner_iff,
    fun r hr => (hi.rows r hr).delivery.attempts_lt, hi.items_le, hi.bytes_le, hi.kept⟩

/-- CORRECT: a run that stamps no new row `-0.0` reaches healthy tables only, and no settling call
    leaves more tombstones than the limit. -/
theorem run_healthy {db : Db Tag} {calls : List (Bool × Call P)}
    (h : Transition.Run o.StampedStep Db.empty calls db) :
    o.Healthy db ∧ ∀ audit itemId owner db',
      (o.acknowledge audit itemId owner db = .ok db' ∨ o.completePending audit itemId db = .ok db') →
        (db'.rows.filter isDelivered).length ≤ o.deliveredTombstones := by
  have hi := Inv.run h
  refine ⟨hi.healthy, ?_⟩
  rintro audit itemId owner db' (hs | hs)
  · exact (hi.acknowledge hs).2
  · exact (hi.completePending hs).2

/-! ### A platform with symbolic tags -/

/-- A tag that is the authenticated body itself. -/
inductive SymTag where
  | payload (itemId payloadJson : Str) (createdAt : Double)
  | state (itemId payloadSha256 : Str) (payloadSignature : SymTag) (createdAt : Double)
      (state : State) (attempts : ℕ) (nextAttempt : Double) (leaseOwner : Str)
      (leaseUntil : Double) (lastError : Str) (sizeBytes : ℕ)
  deriving DecidableEq

/-- One payload, the empty object, and the digest of a text is the text. -/
def symbolicPlatform : Platform SymTag Unit Unit where
  isMapping _ := true
  canonical _ := some "\x7b\x7d".toList
  loads _ := some ()
  isObject _ := true
  sha256 s := s
  payloadTag b := .payload b.itemId b.payloadJson b.createdAt
  stateTag b := .state b.itemId b.payloadSha256 b.payloadSignature b.createdAt b.state b.attempts
    b.nextAttempt b.leaseOwner b.leaseUntil b.lastError b.sizeBytes
  loads_canonical _ _ _ _ := ⟨(), rfl, rfl⟩
  payloadTag_injective := by
    rintro ⟨⟩ ⟨⟩ h
    simpa using h
  stateTag_injective := by
    rintro ⟨⟩ ⟨⟩ h
    simpa using h

def symbolicOutbox : DurableOutbox SymTag Unit Unit :=
  { symbolicPlatform, Limits.ofArgs 20000 (128 * 1024 * 1024) 12 10000 with }

theorem run_healthy_deliver : ∃ db, symbolicOutbox.Healthy db ∧
    ∃ r ∈ db.rows, r.itemId = "a".toList ∧ r.state = .delivered := by
  have hrun : ∃ db, Transition.Run symbolicOutbox.StampedStep Db.empty
      [(false, .enqueue " a".toList () .zero), (false, .completePending "a".toList)] db ∧
        ∃ r ∈ db.rows, r.itemId = "a".toList ∧ r.state = .delivered :=
    ⟨_, (Transition.Run.single ⟨Or.inl Double.zero_ne_negZero, Or.inl rfl⟩).snoc
      ⟨trivial, Or.inl rfl⟩, _, List.mem_singleton.mpr rfl, rfl, rfl⟩
  obtain ⟨db, hdb, hr⟩ := hrun
  exact ⟨db, (run_healthy hdb).1, hr⟩

/-- An item enqueued at `-0.0` leaves a row that the outbox refuses from then on. -/
theorem negZero_stamp_unverified :
    ∃ db, Transition.Run symbolicOutbox.Step Db.empty [(false, .enqueue "a".toList () .negZero)] db ∧
      ∃ r ∈ db.rows, symbolicOutbox.verifyRow r =
        .error (.integrity "outbox item a failed authentication") := by
  refine ⟨_, Transition.Run.single (Or.inl rfl), _, List.mem_singleton.mpr rfl, rfl⟩

end Angerona.Outbox
