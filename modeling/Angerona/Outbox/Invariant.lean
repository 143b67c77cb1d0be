import Angerona.Lib.Raising
import Angerona.Lib.Transition
import Angerona.Outbox.Model

/-!
    The invariant of the outbox table over whole runs.

    `Inv` is carried by three kinds of statement: an update of a verified row, a deletion of a
    delivered row and the insertion of a prepared row. A row is found again by its state signature,
    and the tags are injective, so the row an update hits is the row that was read. -/

namespace Angerona.Outbox
open Text Raising

variable {Tag P J : Type} [DecidableEq Tag] (o : DurableOutbox Tag P J)

/-! ### Rows -/

/-- The columns no operation rewrites. -/
structure PayloadOk (row : Row Tag) : Prop where
  id_ne : row.itemId ≠ []
  id_len : row.itemId.length ≤ 160
  size_le : utf8Length row.payloadJson ≤ maxItemBytes
  size_eq : row.sizeBytes = utf8Length row.payloadJson
  digest : o.sha256 row.payloadJson = row.payloadSha256
  signature : o.signatureOf row.itemId row.payloadJson row.createdAt = row.signature
  object : ∃ j, o.loads row.payloadJson = some j ∧ o.isObject j = true

/-- The delivery columns. -/
structure DeliveryOk (row : Row Tag) : Prop where
  attempts_le : row.attempts ≤ 100
  attempts_lt : row.state = .pending ∨ row.state = .leased → row.attempts < o.maxAttempts
  owner_len : row.leaseOwner.length ≤ 160
  error_len : row.lastError.length ≤ 1000
  owner_iff : row.leaseOwner ≠ [] ↔ row.state = .leased
  until_zero : row.state ≠ .leased → row.leaseUntil = .zero
  error_nil : row.state = .delivered → row.lastError = []
  next_ne : row.nextAttempt ≠ .negZero
  until_ne : row.leaseUntil ≠ .negZero

structure RowOk (row : Row Tag) : Prop where
  payload : PayloadOk o row
  delivery : DeliveryOk o row
  stateSignature : o.stateSignatureOf row = row.stateSignature

variable {o}

/-- A good row passes the outbox's own check. -/
theorem RowOk.verifies {row : Row Tag} (h : RowOk o row) : ∃ j, o.verifyRow row = .ok j := by
  obtain ⟨⟨h1, h2, h3, h4, h5, h6, j, h7, h8⟩, ⟨h9, -, h10, h11, h12, h13, h14, -, -⟩, h15⟩ := h
  refine ⟨j, ?_⟩
  rw [DurableOutbox.verifyRow, if_neg (by rintro (h | h); exacts [h1 h, by omega]),
    if_neg (by omega), if_neg (by omega), if_neg (fun ⟨ha, hb⟩ => h12.mpr ha hb), if_neg ?_,
    if_neg (fun ⟨ha, hb⟩ => hb (h14 ha)), if_neg (by omega), if_neg (by simp [h5]),
    if_neg (by simp [h6]), h7]
  · simp [h8, h15]
  · rintro ⟨ha, hb | hb⟩
    · exact ha (h12.mp hb)
    · rw [h13 ha] at hb
      exact hb rfl

/-- What the tags of a row that passed the check are. -/
theorem verifyRow_ok {row : Row Tag} {j : J} (h : o.verifyRow row = .ok j) :
    o.signatureOf row.itemId row.payloadJson row.createdAt = row.signature ∧
      o.stateSignatureOf row = row.stateSignature := by
  simp only [DurableOutbox.verifyRow, itemError, if_error_ok, not_not] at h
  obtain ⟨-, -, -, -, -, -, -, -, hsig, h⟩ := h
  refine ⟨hsig, ?_⟩
  split at h
  · simp at h
  · simp only [if_error_ok, not_not] at h
    exact h.2.1

/-- A good row found under the identity and signature of a verified row is that row. -/
theorem eq_of_version {r raw : Row Tag} {j : J} (hr : RowOk o r) (hraw : o.verifyRow raw = .ok j)
    (hv : Row.isVersion raw.itemId raw.stateSignature r = true) : r = raw := by
  obtain ⟨hsig, hstate⟩ := verifyRow_ok hraw
  simp only [Row.isVersion, decide_eq_true_eq] at hv
  obtain ⟨-, hv⟩ := hv
  have hbody : r.body = raw.body :=
    o.stateTag_injective (by
      have h1 := hr.stateSignature
      rw [DurableOutbox.stateSignatureOf] at h1 hstate
      rw [h1, hstate, hv])
  simp only [Row.body, StateBody.mk.injEq] at hbody
  obtain ⟨h1, h2, h3, h4, h5, h6, h7, h8, h9, h10, h11⟩ := hbody
  have hjson : r.payloadJson = raw.payloadJson := by
    have hp := hr.payload.signature
    rw [DurableOutbox.signatureOf, h3, ← hsig] at hp
    exact (PayloadBody.mk.inj (o.payloadTag_injective hp)).2.1
  cases r
  cases raw
  simp_all

/-! ### The invariant -/

/-- The state last written for an item. -/
def Db.lastWritten (db : Db Tag) (itemId : Str) : Option State := db.written.lookup itemId

/-- An item that was written is still there in its last state, unless that was `delivered`. -/
def Db.Kept (db : Db Tag) : Prop :=
  ∀ itemId s, db.lastWritten itemId = some s →
    (∃ r ∈ db.rows, r.itemId = itemId ∧ r.state = s) ∨
      (s = .delivered ∧ ∀ r ∈ db.rows, r.itemId ≠ itemId)

variable (o) in
structure Inv (db : Db Tag) : Prop where
  ids : (db.rows.map (·.itemId)).Nodup
  rows : ∀ r ∈ db.rows, RowOk o r
  items_le : (retained db.rows).length ≤ o.maxItems
  bytes_le : bytes (retained db.rows) ≤ o.maxBytes
  kept : db.Kept

omit [DecidableEq Tag] in
theorem retained_length (rows : List (Row Tag)) :
    (retained rows).length = Table.total (fun r => if r.state ≠ .delivered then 1 else 0) rows := by
  rw [retained, Table.length_filter_eq_total]
  simp

omit [DecidableEq Tag] in
theorem retained_bytes (rows : List (Row Tag)) :
    bytes (retained rows) =
      Table.total (fun r => if r.state ≠ .delivered then r.sizeBytes else 0) rows := by
  rw [retained, bytes, Table.sum_filter_eq_total]
  simp

omit [DecidableEq Tag] in
theorem inv_empty : Inv o Db.empty where
  ids := List.nodup_nil
  rows := by simp [Db.empty]
  items_le := Nat.zero_le _
  bytes_le := Nat.zero_le _
  kept := by simp [Db.Kept, Db.lastWritten, Db.empty]

/-! ### One update -/

/-- The changed row keeps the payload columns. -/
structure SamePayload (changed raw : Row Tag) : Prop where
  itemId : changed.itemId = raw.itemId
  payloadJson : changed.payloadJson = raw.payloadJson
  payloadSha256 : changed.payloadSha256 = raw.payloadSha256
  signature : changed.signature = raw.signature
  createdAt : changed.createdAt = raw.createdAt
  sizeBytes : changed.sizeBytes = raw.sizeBytes

omit [DecidableEq Tag] in
/-- Writing a signed change over its row leaves the signed change. -/
theorem overwrite_sign {changed raw : Row Tag} (hs : SamePayload changed raw)
    (hd : DeliveryOk o changed) : (o.sign changed).overwrite raw = o.sign changed := by
  have hn : changed.nextAttempt.stored = changed.nextAttempt := Double.stored_eq hd.next_ne
  have hu : changed.leaseUntil.stored = changed.leaseUntil := Double.stored_eq hd.until_ne
  obtain ⟨h1, h2, h3, h4, h5, h6⟩ := hs
  cases changed
  cases raw
  simp_all [Row.overwrite, DurableOutbox.sign]

omit [DecidableEq Tag] in
theorem rowOk_sign {changed raw : Row Tag} (hr : RowOk o raw) (hs : SamePayload changed raw)
    (hd : DeliveryOk o changed) : RowOk o (o.sign changed) where
  payload := by
    obtain ⟨h1, h2, h3, h4, h5, h6⟩ := hs
    obtain ⟨g1, g2, g3, g4, g5, g6, g7⟩ := hr.payload
    exact ⟨h1 ▸ g1, h1 ▸ g2, h2 ▸ g3, by rw [DurableOutbox.sign, h6, h2, g4],
      by rw [DurableOutbox.sign, h2, h3, g5], by rw [DurableOutbox.sign, h1, h2, h5, h4, g6],
      by rw [DurableOutbox.sign, h2]; exact g7⟩
  delivery := ⟨hd.1, hd.2, hd.3, hd.4, hd.5, hd.6, hd.7, hd.8, hd.9⟩
  stateSignature := rfl

/-- What a successful `_update_state_locked` of a verified row does. -/
theorem updateState_ok {db db' : Db Tag} {raw changed : Row Tag} {j : J}
    (hrows : ∀ r ∈ db.rows, RowOk o r) (hraw : o.verifyRow raw = .ok j)
    (hid : changed.itemId = raw.itemId) (h : o.updateState db raw changed = .ok db') :
    raw ∈ db.rows ∧
      (∀ r ∈ db.rows, Row.isVersion raw.itemId raw.stateSignature r = true → r = raw) ∧
      db' = ⟨Table.update (Row.isVersion raw.itemId raw.stateSignature)
        (o.sign changed).overwrite db.rows, (raw.itemId, changed.state) :: db.written⟩ := by
  have huniq : ∀ r ∈ db.rows, Row.isVersion raw.itemId raw.stateSignature r = true → r = raw :=
    fun r hr hv => eq_of_version (hrows r hr) hraw hv
  simp only [DurableOutbox.updateState, itemError, if_error_ok, not_not, DurableOutbox.sign, hid,
    Except.ok.injEq] at h
  obtain ⟨hcount, rfl⟩ := h
  obtain ⟨r, hr, hv⟩ := Table.exists_of_rowcount hcount
  exact ⟨huniq r hr hv ▸ hr, huniq, by simp only [DurableOutbox.sign, hid]⟩

theorem isVersion_self (row : Row Tag) :
    Row.isVersion row.itemId row.stateSignature row = true := by
  simp [Row.isVersion]

/-- The rows after a successful update: the changed row and all the others. -/
theorem mem_updateState {db db' : Db Tag} {raw changed : Row Tag} {j : J}
    (hrows : ∀ r ∈ db.rows, RowOk o r) (hraw : o.verifyRow raw = .ok j)
    (hs : SamePayload changed raw) (hd : DeliveryOk o changed)
    (h : o.updateState db raw changed = .ok db') {r : Row Tag} :
    r ∈ db'.rows ↔ r = o.sign changed ∨ (r ∈ db.rows ∧ r ≠ raw) := by
  obtain ⟨hmem, huniq, rfl⟩ := updateState_ok hrows hraw hs.itemId h
  constructor
  · intro hr
    rcases Table.mem_update_of_unique (isVersion_self raw) huniq hr with rfl | hr
    · exact Or.inl (overwrite_sign hs hd)
    · exact Or.inr hr
  · rintro (rfl | ⟨hr, hne⟩)
    · exact Table.mem_update.mpr ⟨raw, hmem, by rw [if_pos (isVersion_self raw),
        overwrite_sign hs hd]⟩
    · exact Table.mem_update.mpr ⟨r, hr, if_neg fun hv => hne (huniq r hr hv)⟩

/-- An update of a live row to good delivery columns keeps the invariant. -/
theorem Inv.update {db db' : Db Tag} {raw changed : Row Tag} {j : J} (hi : Inv o db)
    (hraw : o.verifyRow raw = .ok j) (hs : SamePayload changed raw) (hd : DeliveryOk o changed)
    (hlive : raw.state ≠ .delivered) (h : o.updateState db raw changed = .ok db') : Inv o db' := by
  obtain ⟨hmem, huniq, hdb⟩ := updateState_ok hi.rows hraw hs.itemId h
  have hrows := fun {r} => mem_updateState (r := r) hi.rows hraw hs hd h
  have hover := overwrite_sign hs hd
  refine ⟨?_, ?_, ?_, ?_, ?_⟩
  · rw [hdb]
    have hkeys : ∀ r ∈ db.rows, Row.isVersion raw.itemId raw.stateSignature r = true →
        ((o.sign changed).overwrite r).itemId = r.itemId := fun r _ _ => rfl
    exact (Table.keys_update hkeys).symm ▸ hi.ids
  · intro r hr
    rcases hrows.mp hr with rfl | ⟨hr, -⟩
    · exact rowOk_sign (hi.rows raw hmem) hs hd
    · exact hi.rows r hr
  · rw [hdb, retained_length]
    refine le_trans (Table.total_update_le fun r hr hv => ?_) (retained_length db.rows ▸ hi.items_le)
    rw [huniq r hr hv, if_pos hlive]
    split <;> omega
  · rw [hdb, retained_bytes]
    refine le_trans (Table.total_update_le fun r hr hv => ?_) (retained_bytes db.rows ▸ hi.bytes_le)
    rw [huniq r hr hv, hover, if_pos hlive]
    split
    · exact hs.sizeBytes.le
    · exact Nat.zero_le _
  · intro id s hlast
    rw [hdb, Db.lastWritten, List.lookup_cons] at hlast
    by_cases hid : id = raw.itemId
    · subst hid
      simp only [beq_self_eq_true] at hlast
      obtain rfl := Option.some.inj hlast
      exact Or.inl ⟨o.sign changed, hrows.mpr (Or.inl rfl), hs.itemId, rfl⟩
    · have hne : (id == raw.itemId) = false := by simpa using hid
      simp only [hne] at hlast
      rcases hi.kept id s hlast with ⟨r, hr, rfl, hst⟩ | ⟨hs', hnone⟩
      · exact Or.inl ⟨r, hrows.mpr (Or.inr ⟨hr, fun he => hid (he ▸ rfl)⟩), rfl, hst⟩
      · refine Or.inr ⟨hs', fun r hr => ?_⟩
        rcases hrows.mp hr with rfl | ⟨hr, -⟩
        · exact fun he => hid (he ▸ hs.itemId)
        · exact hnone r hr

/-! ### Pruning -/

def isDelivered (row : Row Tag) : Bool := row.state = .delivered

/-- What a successful deletion of a tombstone does. -/
theorem deleteVersion_ok {db db' : Db Tag} {raw : Row Tag} (hi : Inv o db)
    (h : o.deleteVersion db raw = .ok db') :
    raw ∈ db.rows ∧
      (∀ r ∈ db.rows, Row.isVersion raw.itemId raw.stateSignature r = true ↔ r = raw) ∧
      Table.rowcount (Row.isVersion raw.itemId raw.stateSignature) db.rows = 1 ∧
      db' = { db with
        rows := Table.delete (Row.isVersion raw.itemId raw.stateSignature) db.rows } := by
  rw [DurableOutbox.deleteVersion] at h
  obtain ⟨j, hj, h⟩ := bind_ok.mp h
  simp only [itemError, if_error_ok, not_not, Except.ok.injEq] at h
  obtain ⟨hcount, rfl⟩ := h
  obtain ⟨r, hr, hv⟩ := Table.exists_of_rowcount hcount
  have huniq := fun s hs => eq_of_version (hi.rows s hs) hj
  refine ⟨huniq r hr hv ▸ hr, fun s hs => ⟨huniq s hs, ?_⟩, hcount, rfl⟩
  rintro rfl
  exact isVersion_self s

theorem Inv.delete {db db' : Db Tag} {raw : Row Tag} (hi : Inv o db) (hd : raw.state = .delivered)
    (h : o.deleteVersion db raw = .ok db') : Inv o db' := by
  obtain ⟨hmem, hiff, -, rfl⟩ := deleteVersion_ok hi h
  have hrows : ∀ {r}, r ∈ Table.delete (Row.isVersion raw.itemId raw.stateSignature) db.rows ↔
      r ∈ db.rows ∧ r ≠ raw := by
    intro r
    rw [Table.mem_delete]
    refine and_congr_right fun hr => ?_
    rw [← Bool.not_eq_true, hiff r hr]
  refine ⟨Table.keys_delete_nodup hi.ids, fun r hr => hi.rows r (hrows.mp hr).1, ?_, ?_, ?_⟩
  · rw [retained_length]
    exact (Table.total_delete_le _).trans (retained_length db.rows ▸ hi.items_le)
  · rw [retained_bytes]
    exact (Table.total_delete_le _).trans (retained_bytes db.rows ▸ hi.bytes_le)
  · intro id s hlast
    rcases hi.kept id s hlast with ⟨r, hr, rfl, rfl⟩ | ⟨hs, hnone⟩
    · by_cases he : r = raw
      · refine Or.inr ⟨he ▸ hd, fun t ht hid => ?_⟩
        obtain ⟨ht, hne⟩ := hrows.mp ht
        exact hne (he ▸ Table.eq_of_key hi.ids ht hr hid)
      · exact Or.inl ⟨r, hrows.mpr ⟨hr, he⟩, rfl, rfl⟩
    · exact Or.inr ⟨hs, fun r hr => hnone r (hrows.mp hr).1⟩

omit [DecidableEq Tag] in
theorem mem_tombstones {r : Row Tag} {rows : List (Row Tag)} :
    r ∈ tombstones rows ↔ r ∈ rows ∧ r.state = .delivered := by
  rw [tombstones, List.mem_insertionSort, List.mem_filter, decide_eq_true_eq]

/-- Pruning keeps the invariant and adds no row. -/
theorem Inv.prune {db db' : Db Tag} (hi : Inv o db) (h : o.pruneTombstones db = .ok db') :
    Inv o db' ∧ ∀ r ∈ db'.rows, r ∈ db.rows := by
  refine foldlM_invariant (I := fun d => Inv o d ∧ ∀ r ∈ d.rows, r ∈ db.rows) ?_
    ⟨hi, fun _ => id⟩ h
  intro d raw d' hraw ⟨hd, hsub⟩ hdel
  have hdone := (mem_tombstones.mp (List.mem_of_mem_drop hraw)).2
  refine ⟨hd.delete hdone hdel, fun r hr => ?_⟩
  obtain ⟨-, -, -, rfl⟩ := deleteVersion_ok hd hdel
  exact hsub r (Table.mem_delete.mp hr).1

/-- Every deletion of the pruning loop removes one tombstone. -/
theorem prune_count : ∀ {l : List (Row Tag)} {db db' : Db Tag}, Inv o db →
    (∀ r ∈ l, r.state = .delivered) → l.foldlM o.deleteVersion db = .ok db' →
      Table.rowcount isDelivered db.rows = Table.rowcount isDelivered db'.rows + l.length
  | [], db, db', _, _, h => by
    obtain rfl := Except.ok.inj h
    rfl
  | raw :: l, db, db', hi, hl, h => by
    rw [List.foldlM_cons] at h
    obtain ⟨d, hd, h⟩ := bind_ok.mp h
    have hraw := hl raw List.mem_cons_self
    have ih := prune_count (hi.delete hraw hd) (fun r hr => hl r (List.mem_cons_of_mem _ hr)) h
    obtain ⟨-, hiff, hone, rfl⟩ := deleteVersion_ok hi hd
    have hcount := Table.rowcount_delete (q := isDelivered) fun r hr hv => by
      rw [(hiff r hr).mp hv, isDelivered, hraw]
      rfl
    rw [hone, ih] at hcount
    rw [hcount, List.length_cons, Nat.add_assoc]

/-- After pruning no more tombstones are left than the limit. -/
theorem prune_le {db db' : Db Tag} (hi : Inv o db) (h : o.pruneTombstones db = .ok db') :
    (db'.rows.filter isDelivered).length ≤ o.deliveredTombstones := by
  have hcount := prune_count hi (fun r hr =>
    (mem_tombstones.mp (List.mem_of_mem_drop hr)).2) h
  have hlen : (tombstones db.rows).length = Table.rowcount isDelivered db.rows := by
    rw [tombstones, List.length_insertionSort, Table.rowcount, List.countP_eq_length_filter]
    rfl
  rw [List.length_drop, hlen] at hcount
  rw [← List.countP_eq_length_filter]
  simp only [Table.rowcount] at hcount
  omega

/-! ### Insertion -/

omit [DecidableEq Tag] in
/-- A prepared row is good and reads back as written, unless its stamp is a negative zero. -/
theorem prepare_ok {itemId : Str} {payload : P} {now : Double} {row : Row Tag}
    (h : o.prepare itemId payload now = .ok row) :
    row.itemId = strip itemId ∧ row.state = .pending ∧
      (now ≠ .negZero → RowOk o row ∧ row.stored = row) := by
  simp only [DurableOutbox.prepare, if_error_ok, Bool.not_eq_false] at h
  obtain ⟨hid, hmap, h⟩ := h
  split at h
  · simp at h
  rename_i serialized hcan
  simp only [if_error_ok] at h
  obtain ⟨hsize, h⟩ := h
  split at h
  · simp at h
  obtain rfl := Except.ok.inj h
  refine ⟨rfl, rfl, fun hnow => ⟨⟨⟨?_, ?_, ?_, rfl, rfl, rfl, ?_⟩, ?_, rfl⟩, ?_⟩⟩
  · exact fun he => hid (Or.inl he)
  · exact Nat.le_of_not_lt fun hlt => hid (Or.inr hlt)
  · exact Nat.le_of_not_lt hsize
  · exact o.loads_canonical payload serialized hmap hcan
  · exact ⟨Nat.zero_le _, fun _ => o.maxAttempts_pos, Nat.zero_le _, Nat.zero_le _, by
      simp [DurableOutbox.sign], fun _ => rfl, fun _ => rfl, Double.zero_ne_negZero, Double.zero_ne_negZero⟩
  · simp only [Row.stored, DurableOutbox.sign, Double.stored_zero, Double.stored_eq hnow]

omit [DecidableEq Tag] in
/-- Inserting a good pending row with a free key keeps the invariant when there is room. -/
theorem Inv.insert {db : Db Tag} {row : Row Tag} (hi : Inv o db) (hrow : RowOk o row)
    (hstored : row.stored = row) (hfree : ∀ r ∈ db.rows, r.itemId ≠ row.itemId)
    (hitems : (retained db.rows).length + 1 ≤ o.maxItems)
    (hbytes : bytes (retained db.rows) + row.sizeBytes ≤ o.maxBytes) : Inv o (db.insert row) := by
  have hrows : (db.insert row).rows = db.rows ++ [row] := by rw [Db.insert, hstored]
  refine ⟨?_, ?_, ?_, ?_, ?_⟩
  · rw [hrows, List.map_append]
    refine List.nodup_append.mpr ⟨hi.ids, by simp, fun a ha b hb => ?_⟩
    obtain ⟨r, hr, rfl⟩ := List.mem_map.mp ha
    rw [List.map_singleton, List.mem_singleton] at hb
    exact hb ▸ hfree r hr
  · intro r hr
    rw [hrows] at hr
    rcases List.mem_append.mp hr with hr | hr
    · exact hi.rows r hr
    · exact List.mem_singleton.mp hr ▸ hrow
  · rw [hrows, retained_length, Table.total_append, ← retained_length]
    refine le_trans (Nat.add_le_add_left ?_ _) hitems
    simp only [Table.total, List.map_cons, List.map_nil, List.sum_cons, List.sum_nil]
    split <;> omega
  · rw [hrows, retained_bytes, Table.total_append, ← retained_bytes]
    refine le_trans (Nat.add_le_add_left ?_ _) hbytes
    simp only [Table.total, List.map_cons, List.map_nil, List.sum_cons, List.sum_nil]
    split <;> omega
  · intro id s hlast
    rw [Db.lastWritten, Db.insert, List.lookup_cons] at hlast
    by_cases hid : id = row.itemId
    · subst hid
      simp only [beq_self_eq_true] at hlast
      obtain rfl := Option.some.inj hlast
      exact Or.inl ⟨row, by rw [hrows]; simp, rfl, rfl⟩
    · have hne : (id == row.itemId) = false := by simpa using hid
      simp only [hne] at hlast
      rcases hi.kept id s hlast with ⟨r, hr, rfl, hst⟩ | ⟨hs, hnone⟩
      · exact Or.inl ⟨r, by rw [hrows]; exact List.mem_append_left _ hr, rfl, hst⟩
      · refine Or.inr ⟨hs, fun r hr => ?_⟩
        rw [hrows] at hr
        rcases List.mem_append.mp hr with hr | hr
        · exact hnone r hr
        · exact List.mem_singleton.mp hr ▸ fun he => hid he.symm

omit [DecidableEq Tag] in
/-- The same for a batch, one row after the other. -/
theorem Inv.insertAll : ∀ {rows : List (Row Tag)} {db : Db Tag}, Inv o db →
    (∀ row ∈ rows, RowOk o row ∧ row.stored = row) → (rows.map (·.itemId)).Nodup →
      (∀ row ∈ rows, ∀ r ∈ db.rows, r.itemId ≠ row.itemId) →
      (∀ row ∈ rows, row.state ≠ .delivered) →
      (retained db.rows).length + rows.length ≤ o.maxItems →
      bytes (retained db.rows) + bytes rows ≤ o.maxBytes → Inv o (rows.foldl Db.insert db)
  | [], _, hi, _, _, _, _, _, _ => hi
  | row :: rows, db, hi, hrow, hnd, hfree, hlive, hitems, hbytes => by
    obtain ⟨hok, hstored⟩ := hrow row List.mem_cons_self
    have hrows : (db.insert row).rows = db.rows ++ [row] := by rw [Db.insert, hstored]
    have hstate := hlive row List.mem_cons_self
    have hret : retained (db.insert row).rows = retained db.rows ++ [row] := by
      rw [hrows, retained, List.filter_append, List.filter_cons_of_pos (by simpa using hstate)]
      rfl
    have hb : bytes (row :: rows) = row.sizeBytes + bytes rows := by simp [bytes]
    rw [List.length_cons] at hitems
    rw [hb] at hbytes
    rw [List.map_cons, List.nodup_cons] at hnd
    rw [List.foldl_cons]
    refine Inv.insertAll (hi.insert hok hstored (hfree row List.mem_cons_self) (by omega)
      (by omega)) (fun r hr => hrow r (List.mem_cons_of_mem _ hr)) hnd.2 ?_
      (fun r hr => hlive r (List.mem_cons_of_mem _ hr)) ?_ ?_
    · intro r hr t ht
      rw [hrows] at ht
      rcases List.mem_append.mp ht with ht | ht
      · exact hfree r (List.mem_cons_of_mem _ hr) t ht
      · rw [List.mem_singleton.mp ht]
        exact fun he => hnd.1 (he ▸ List.mem_map_of_mem hr)
    · rw [hret, List.length_append, List.length_singleton]
      omega
    · rw [hret]
      simp only [bytes, List.map_append, List.map_cons, List.map_nil, List.sum_append,
        List.sum_cons, List.sum_nil] at hbytes ⊢
      omega

end Angerona.Outbox
