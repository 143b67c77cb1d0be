import Angerona.Outbox.Runs

/-!
    A batch and its entries one by one, `enqueue_many` and `enqueue`.

    Both are described by the rows that the entries are prepared as: which of them the table takes,
    and what refuses them. The descriptions differ in one point. `enqueue` reads a row that it has
    inserted back when the identifier is repeated, `enqueue_many` does not. -/

namespace Angerona.Outbox
open Text Raising

variable {Tag P J : Type} [DecidableEq Tag] (o : DurableOutbox Tag P J)

/-! ### Entries with any timestamp -/

/-- An entry of a batch, with the float that its timestamp is. -/
abbrev Entry (P : Type) := Str × P × PyFloat

/-- The row of an entry; no JSON text is signed for an infinity or NaN. -/
def DurableOutbox.prepareAt (entry : Entry P) : Except OutboxError (Row Tag) :=
  match entry.2.2 with
  | .finite now => o.prepare entry.1 entry.2.1 now
  | _ => (o.prepare entry.1 entry.2.1 .zero).bind fun _ => .error .runtime

/-- `enqueue` after its row is prepared. -/
def DurableOutbox.enqueueRow (audit : Bool) (row : Row Tag) (db : Db Tag) :
    Except OutboxError (Db Tag × Bool) := do
  o.verifyIfChanged audit db
  match findRow db row.itemId with
  | some existing => do
    o.checkReplay existing row
    .ok (db, false)
  | none => do
    let db ← o.pruneTombstones db
    if o.maxItems ≤ (retained db.rows).length ∨
        o.maxBytes < bytes (retained db.rows) + row.sizeBytes then capacityError
    else .ok (db.insert row, true)

def DurableOutbox.enqueueAt (audit : Bool) (entry : Entry P) (db : Db Tag) :
    Except OutboxError (Db Tag × Bool) := do
  let row ← o.prepareAt entry
  o.enqueueRow audit row db

/-- The entries in order. Only the first call can find that others changed the database. -/
def DurableOutbox.enqueueEach : Bool → List (Entry P) → Db Tag → Except OutboxError (Db Tag × ℕ)
  | _, [], db => .ok (db, 0)
  | audit, entry :: entries, db => do
    let (db, new) ← o.enqueueAt audit entry db
    let (db, count) ← enqueueEach false entries db
    .ok (db, new.toNat + count)

/-- A prepared row of a batch. -/
def keepEntry (prepared : List (Row Tag)) (row : Row Tag) : Except OutboxError (List (Row Tag)) :=
  match prepared.find? fun previous => previous.itemId = row.itemId with
  | some previous =>
    if previous.payloadJson ≠ row.payloadJson then conflictError else .ok prepared
  | none => .ok (prepared ++ [row])

/-- `enqueue_many` after its rows are prepared. -/
def DurableOutbox.enqueuePrepared (audit : Bool) (prepared : List (Row Tag)) (db : Db Tag) :
    Except OutboxError (Db Tag × ℕ) :=
  if prepared = [] then .ok (db, 0)
  else do
    o.verifyIfChanged audit db
    let additions ← prepared.foldlM (o.addEntry db) []
    if additions = [] then .ok (db, 0)
    else do
      let db ← o.pruneTombstones db
      if o.maxItems < (retained db.rows).length + additions.length ∨
          o.maxBytes < bytes (retained db.rows) + bytes additions then capacityError
      else .ok (additions.foldl Db.insert db, additions.length)

def DurableOutbox.enqueueManyAt (audit : Bool) (entries : List (Entry P)) (db : Db Tag) :
    Except OutboxError (Db Tag × ℕ) :=
  if 100 < entries.length then .error (.value "outbox batch exceeds 100 entries")
  else do
    let prepared ← entries.foldlM (fun prepared entry => do keepEntry prepared (← o.prepareAt entry)) []
    o.enqueuePrepared audit prepared db

theorem enqueueAt_finite (audit : Bool) (itemId : Str) (payload : P) (now : Double) (db : Db Tag) :
    o.enqueueAt audit (itemId, payload, .finite now) db = o.enqueue audit itemId payload now db := rfl

theorem enqueueManyAt_finite (audit : Bool) (entries : List (Str × P × Double)) (db : Db Tag) :
    o.enqueueManyAt audit (entries.map fun e => (e.1, e.2.1, .finite e.2.2)) db =
      o.enqueueMany audit entries db := by
  rw [DurableOutbox.enqueueManyAt, List.length_map, List.foldlM_map]
  rfl

/-! ### What a batch needs -/

variable (db : Db Tag)

/-- The rows whose identifier is new to the table, each at its first entry. -/
def additions (rows : List (Row Tag)) : List (Row Tag) :=
  Table.fresh Row.itemId (db.rows.map Row.itemId) rows

structure Accepted (audit : Bool) (rows : List (Row Tag)) : Prop where
  audited : rows = [] ∨ o.verifyIfChanged audit db = .ok ()
  consistent : ∀ a ∈ rows, ∀ b ∈ rows, a.itemId = b.itemId → a.payloadJson = b.payloadJson
  replays : ∀ row ∈ rows, ∀ existing, findRow db row.itemId = some existing →
    o.checkReplay existing row = .ok ()
  room : additions db rows = [] ∨
    (retained db.rows).length + (additions db rows).length ≤ o.maxItems ∧
      bytes (retained db.rows) + bytes (additions db rows) ≤ o.maxBytes

/-- No new identifier that the batch repeats is stamped with a negative zero at first. -/
def KeepsStamps (rows : List (Row Tag)) : Prop :=
  ∀ row ∈ additions db rows, 2 ≤ rows.countP (fun r => r.itemId = row.itemId) →
    row.createdAt ≠ .negZero

variable {o db}

/-! ### Prepared rows -/

omit [DecidableEq Tag] in
theorem prepare_stamp {itemId : Str} {payload : P} {now : Double} {row : Row Tag}
    (h : o.prepare itemId payload now = .ok row) :
    row.createdAt = now ∧
      row.signature = o.signatureOf row.itemId row.payloadJson row.createdAt := by
  simp only [DurableOutbox.prepare, if_error_ok, Bool.not_eq_false] at h
  obtain ⟨-, -, h⟩ := h
  split at h
  · cases h
  · simp only [if_error_ok] at h
    obtain ⟨-, h⟩ := h
    split at h
    · cases h
    · obtain rfl := Except.ok.inj h
      exact ⟨rfl, rfl⟩

/-- What the statements below use of a prepared row. -/
structure Prepared (o : DurableOutbox Tag P J) (row : Row Tag) : Prop where
  pending : row.state = .pending
  stored_verifies : (∃ j, o.verifyRow row.stored = .ok j) ↔ row.createdAt ≠ .negZero

theorem prepareAt_ok {entry : Entry P} {row : Row Tag} (h : o.prepareAt entry = .ok row) :
    Prepared o row := by
  obtain ⟨itemId, payload, now⟩ := entry
  rw [DurableOutbox.prepareAt] at h
  cases now with
  | finite now =>
    obtain ⟨-, hpending, hgood⟩ := prepare_ok h
    obtain ⟨rfl, hsignature⟩ := prepare_stamp h
    refine ⟨hpending, fun hverify hzero => ?_, fun hne => ?_⟩
    · obtain ⟨j, hj⟩ := hverify
      have htag := (verifyRow_ok hj).1
      rw [show row.stored.signature = row.signature from rfl, hsignature] at htag
      have hstored : row.createdAt.stored = row.createdAt :=
        congrArg PayloadBody.createdAt (o.payloadTag_injective htag)
      rw [hzero] at hstored
      exact Double.stored_ne_negZero _ hstored
    · obtain ⟨hok, hstored⟩ := hgood hne
      rw [hstored]
      exact hok.verifies
  | _ =>
    obtain ⟨_, -, h⟩ := bind_ok.mp h
    cases h

theorem checkReplay_ok {existing row : Row Tag} : o.checkReplay existing row = .ok () ↔
    (∃ j, o.verifyRow existing = .ok j) ∧ existing.payloadJson = row.payloadJson := by
  rw [DurableOutbox.checkReplay, bind_ok]
  simp only [conflictError, if_error_ok, not_not, and_true, exists_and_right]

/-! ### The table -/

omit [DecidableEq Tag] in
theorem findRow_isSome {itemId : Str} :
    (findRow db itemId).isSome = true ↔ itemId ∈ db.rows.map Row.itemId := by
  simp [findRow, List.find?_isSome]

omit [DecidableEq Tag] in
theorem additions_known {row existing : Row Tag} (hfound : findRow db row.itemId = some existing)
    (rows : List (Row Tag)) : additions db (row :: rows) = additions db rows :=
  Table.fresh_cons_known (findRow_isSome.mp (by rw [hfound]; rfl)) rows

omit [DecidableEq Tag] in
theorem insert_ids (row : Row Tag) :
    (db.insert row).rows.map Row.itemId = db.rows.map Row.itemId ++ [row.itemId] := by
  rw [Db.insert, List.map_append]
  rfl

omit [DecidableEq Tag] in
theorem additions_new {row : Row Tag} (hnone : findRow db row.itemId = none)
    (rows : List (Row Tag)) :
    additions db (row :: rows) = row :: additions (db.insert row) rows := by
  have hnew : row.itemId ∉ db.rows.map Row.itemId := by
    rw [← findRow_isSome, hnone]
    exact Bool.false_ne_true
  rw [additions, Table.fresh_cons_new hnew, additions, insert_ids]

omit [DecidableEq Tag] in
theorem findRow_insert (row : Row Tag) (itemId : Str) : findRow (db.insert row) itemId =
    (findRow db itemId).or (if row.itemId = itemId then some row.stored else none) := by
  rw [findRow, Db.insert, List.find?_append, findRow]
  congr 1
  by_cases h : row.itemId = itemId
  · simp [Row.stored, h]
  · simp [Row.stored, h]

/-- There is nothing to prune within the limit. -/
theorem prune_none (h : (db.rows.filter isDelivered).length ≤ o.deliveredTombstones) :
    o.pruneTombstones db = .ok db := by
  have hlen : (tombstones db.rows).length ≤ o.deliveredTombstones := by
    rw [tombstones, List.length_insertionSort]
    exact h
  rw [DurableOutbox.pruneTombstones, List.drop_eq_nil_of_le hlen]
  rfl

omit [DecidableEq Tag] in
theorem insert_pending {row : Row Tag} (h : row.state = .pending) :
    (db.insert row).rows.filter isDelivered = db.rows.filter isDelivered ∧
      retained (db.insert row).rows = retained db.rows ++ [row.stored] := by
  have hstate : row.stored.state = .pending := h
  rw [Db.insert, retained, List.filter_append, List.filter_append,
    List.filter_cons_of_neg (by simp [isDelivered, hstate]), List.filter_cons_of_pos (by simp [hstate])]
  exact ⟨List.append_nil _, rfl⟩

/-! ### One entry -/

theorem enqueueRow_ok {audit : Bool} {row : Row Tag} {db' : Db Tag} {new : Bool}
    (htomb : (db.rows.filter isDelivered).length ≤ o.deliveredTombstones) :
    o.enqueueRow audit row db = .ok (db', new) ↔ o.verifyIfChanged audit db = .ok () ∧
      ((∃ existing, findRow db row.itemId = some existing ∧ o.checkReplay existing row = .ok () ∧
          db' = db ∧ new = false) ∨
        findRow db row.itemId = none ∧ (retained db.rows).length + 1 ≤ o.maxItems ∧
          bytes (retained db.rows) + row.sizeBytes ≤ o.maxBytes ∧ db' = db.insert row ∧
          new = true) := by
  rw [DurableOutbox.enqueueRow, bind_ok]
  constructor
  · rintro ⟨_, haudit, h⟩
    refine ⟨haudit, ?_⟩
    split at h
    · rename_i existing hfound
      obtain ⟨_, hreplay, h⟩ := bind_ok.mp h
      obtain ⟨rfl, rfl⟩ := Prod.mk.inj (Except.ok.inj h)
      exact .inl ⟨existing, hfound, hreplay, rfl, rfl⟩
    · rename_i hnone
      obtain ⟨d, hd, h⟩ := bind_ok.mp h
      rw [prune_none htomb] at hd
      obtain rfl := Except.ok.inj hd
      simp only [capacityError, if_error_ok, not_or, not_le, not_lt, Except.ok.injEq,
        Prod.mk.injEq] at h
      obtain ⟨⟨hitems, hbytes⟩, rfl, rfl⟩ := h
      exact .inr ⟨hnone, hitems, hbytes, rfl, rfl⟩
  · rintro ⟨haudit, h⟩
    refine ⟨(), haudit, ?_⟩
    rcases h with ⟨existing, hfound, hreplay, rfl, rfl⟩ | ⟨hnone, hitems, hbytes, rfl, rfl⟩
    · rw [hfound]
      exact bind_ok.mpr ⟨(), hreplay, rfl⟩
    · rw [hnone]
      refine bind_ok.mpr ⟨db, prune_none htomb, ?_⟩
      simp only [capacityError, if_error_ok, not_or, not_le, not_lt, and_true]
      exact ⟨by omega, hbytes⟩

omit [DecidableEq Tag] in
theorem countP_self (row : Row Tag) (rows : List (Row Tag)) :
    (row :: rows).countP (fun r => r.itemId = row.itemId) =
      rows.countP (fun r => r.itemId = row.itemId) + 1 :=
  List.countP_cons_of_pos (by simp)

/-- A replay in front of the other rows. -/
theorem accepted_known {audit : Bool} {row existing : Row Tag} {rows : List (Row Tag)}
    (hfound : findRow db row.itemId = some existing) :
    (Accepted o db audit (row :: rows) ∧ KeepsStamps db (row :: rows)) ↔
      o.verifyIfChanged audit db = .ok () ∧ o.checkReplay existing row = .ok () ∧
        Accepted o db false rows ∧ KeepsStamps db rows := by
  have hknown : row.itemId ∈ db.rows.map Row.itemId := findRow_isSome.mp (by rw [hfound]; rfl)
  have hadds := additions_known hfound rows
  constructor
  · rintro ⟨⟨haudit, hsame, hreplays, hroom⟩, hstamps⟩
    refine ⟨haudit.resolve_left (List.cons_ne_nil _ _),
      hreplays row List.mem_cons_self existing hfound, ⟨.inr rfl, ?_, ?_, hadds ▸ hroom⟩, ?_⟩
    · exact fun a ha b hb => hsame a (List.mem_cons_of_mem _ ha) b (List.mem_cons_of_mem _ hb)
    · exact fun b hb => hreplays b (List.mem_cons_of_mem _ hb)
    · intro a ha hcount
      refine hstamps a (hadds ▸ ha) (hcount.trans ?_)
      rw [List.countP_cons]
      omega
  · rintro ⟨haudit, hreplay, ⟨-, hsame, hreplays, hroom⟩, hstamps⟩
    have hreplays' : ∀ b ∈ row :: rows, ∀ e, findRow db b.itemId = some e →
        o.checkReplay e b = .ok () := by
      intro b hb e he
      rcases List.mem_cons.mp hb with rfl | hb
      · obtain rfl := Option.some.inj (hfound.symm.trans he)
        exact hreplay
      · exact hreplays b hb e he
    -- every row under the identifier of the replay holds the payload of the existing row
    have hpayload : ∀ b ∈ row :: rows, b.itemId = row.itemId →
        existing.payloadJson = b.payloadJson := fun b hb hid =>
      (checkReplay_ok.mp (hreplays' b hb existing (hid ▸ hfound))).2
    refine ⟨⟨.inr haudit, fun a ha b hb hid => ?_, hreplays', hadds ▸ hroom⟩, fun a ha hcount => ?_⟩
    · by_cases hrow : a.itemId = row.itemId
      · rw [← hpayload a ha hrow, ← hpayload b hb (hid ▸ hrow)]
      · have ha' := (List.mem_cons.mp ha).resolve_left fun h => hrow (h ▸ rfl)
        have hb' := (List.mem_cons.mp hb).resolve_left fun h => hrow (hid.trans (h ▸ rfl))
        exact hsame a ha' b hb' hid
    · rw [hadds] at ha
      have hne : row.itemId ≠ a.itemId := fun h => (Table.mem_fresh ha).2 (h ▸ hknown)
      rw [List.countP_cons_of_neg (by simpa using hne)] at hcount
      exact hstamps a ha hcount

/-- A new row in front of the others is what the rest of the run finds in the table. -/
theorem accepted_new {audit : Bool} {row : Row Tag} {rows : List (Row Tag)}
    (hprepared : Prepared o row) (hnone : findRow db row.itemId = none) :
    (Accepted o db audit (row :: rows) ∧ KeepsStamps db (row :: rows)) ↔
      o.verifyIfChanged audit db = .ok () ∧ (retained db.rows).length + 1 ≤ o.maxItems ∧
        bytes (retained db.rows) + row.sizeBytes ≤ o.maxBytes ∧
        Accepted o (db.insert row) false rows ∧ KeepsStamps (db.insert row) rows := by
  have hadds := additions_new hnone rows
  have hretained : retained (db.insert row).rows = retained db.rows ++ [row.stored] :=
    (insert_pending hprepared.pending).2
  have hsize : bytes (retained (db.insert row).rows) = bytes (retained db.rows) + row.sizeBytes := by
    rw [hretained, bytes, List.map_append, List.sum_append]
    rfl
  have hlength : (retained (db.insert row).rows).length = (retained db.rows).length + 1 := by
    rw [hretained, List.length_append, List.length_singleton]
  have hsum : bytes (additions db (row :: rows)) =
      row.sizeBytes + bytes (additions (db.insert row) rows) := by
    rw [hadds]
    rfl
  have hcount : (additions db (row :: rows)).length = (additions (db.insert row) rows).length + 1 := by
    rw [hadds, List.length_cons]
  -- a later row with the same identifier is a replay of this one
  have hself : ∀ b ∈ rows, b.itemId = row.itemId →
      findRow (db.insert row) b.itemId = some row.stored := by
    intro b _ hid
    rw [findRow_insert, hid, hnone, Option.none_or, if_pos rfl]
  constructor
  · rintro ⟨⟨haudit, hsame, hreplays, hroom⟩, hstamps⟩
    have hroom' := hroom.resolve_left (by rw [hadds]; exact List.cons_ne_nil _ _)
    refine ⟨haudit.resolve_left (List.cons_ne_nil _ _), by omega, by omega,
      ⟨.inr rfl, ?_, ?_, .inr ⟨by omega, by omega⟩⟩, ?_⟩
    · exact fun a ha b hb => hsame a (List.mem_cons_of_mem _ ha) b (List.mem_cons_of_mem _ hb)
    · intro b hb existing hfound
      rw [findRow_insert] at hfound
      rcases hold : findRow db b.itemId with _ | e
      · rw [hold, Option.none_or] at hfound
        by_cases hid : row.itemId = b.itemId
        · rw [if_pos hid] at hfound
          obtain rfl := Option.some.inj hfound
          refine checkReplay_ok.mpr ⟨hprepared.stored_verifies.mpr ?_, ?_⟩
          · refine hstamps row (hadds ▸ List.mem_cons_self) ?_
            have hb' : 0 < rows.countP fun r => r.itemId = row.itemId :=
              List.countP_pos_iff.mpr ⟨b, hb, decide_eq_true hid.symm⟩
            rw [countP_self]
            omega
          · exact hsame row List.mem_cons_self b (List.mem_cons_of_mem _ hb) hid
        · rw [if_neg hid] at hfound
          cases hfound
      · rw [hold, Option.some_or] at hfound
        obtain rfl := Option.some.inj hfound
        exact hreplays b (List.mem_cons_of_mem _ hb) e hold
    · intro a ha hcount'
      refine hstamps a (hadds ▸ List.mem_cons_of_mem _ ha) (hcount'.trans ?_)
      rw [List.countP_cons]
      omega
  · rintro ⟨haudit, hitems, hbytes, ⟨-, hsame, hreplays, hroom⟩, hstamps⟩
    have hreplay : ∀ b ∈ rows, b.itemId = row.itemId → row.createdAt ≠ .negZero ∧
        row.payloadJson = b.payloadJson := by
      intro b hb hid
      obtain ⟨hverify, hpayload⟩ := checkReplay_ok.mp (hreplays b hb _ (hself b hb hid))
      exact ⟨hprepared.stored_verifies.mp hverify, hpayload⟩
    refine ⟨⟨.inr haudit, ?_, ?_, ?_⟩, ?_⟩
    · intro a ha b hb hid
      rcases List.mem_cons.mp ha with rfl | ha'
      · rcases List.mem_cons.mp hb with rfl | hb'
        · rfl
        · exact (hreplay b hb' hid.symm).2
      · rcases List.mem_cons.mp hb with rfl | hb'
        · exact (hreplay a ha' hid).2.symm
        · exact hsame a ha' b hb' hid
    · intro b hb existing hfound
      rcases List.mem_cons.mp hb with rfl | hb
      · rw [hnone] at hfound
        cases hfound
      · refine hreplays b hb existing ?_
        rw [findRow_insert, hfound, Option.some_or]
    · refine .inr ?_
      rcases hroom with hnil | ⟨hitems', hbytes'⟩
      · rw [hnil, List.length_nil] at hcount
        rw [hnil] at hsum
        have hzero : bytes ([] : List (Row Tag)) = 0 := rfl
        exact ⟨by omega, by omega⟩
      · exact ⟨by omega, by omega⟩
    · intro a ha hcount'
      rw [hadds] at ha
      rcases List.mem_cons.mp ha with rfl | ha
      · rw [countP_self] at hcount'
        have hpos : 0 < rows.countP fun r => r.itemId = a.itemId := by omega
        obtain ⟨b, hb, hid⟩ := List.countP_pos_iff.mp hpos
        exact (hreplay b hb (of_decide_eq_true hid)).1
      · have hne : row.itemId ≠ a.itemId := by
          intro h
          refine (Table.mem_fresh ha).2 ?_
          rw [insert_ids, ← h]
          exact List.mem_append_right _ List.mem_cons_self
        rw [List.countP_cons_of_neg (by simpa using hne)] at hcount'
        exact hstamps a ha hcount'

/-! ### Both calls -/

/-- What the entries one by one do. -/
theorem enqueueEach_ok : ∀ {entries : List (Entry P)} {audit : Bool} {db db' : Db Tag} {count : ℕ},
    (db.rows.filter isDelivered).length ≤ o.deliveredTombstones →
      (o.enqueueEach audit entries db = .ok (db', count) ↔
        ∃ rows, entries.mapM o.prepareAt = .ok rows ∧
          (Accepted o db audit rows ∧ KeepsStamps db rows) ∧
          db' = (additions db rows).foldl Db.insert db ∧ count = (additions db rows).length)
  | [], audit, db, db', count, _ => by
    rw [DurableOutbox.enqueueEach]
    constructor
    · intro h
      obtain ⟨rfl, rfl⟩ := Prod.mk.inj (Except.ok.inj h)
      refine ⟨[], rfl, ⟨⟨.inl rfl, ?_, ?_, .inl rfl⟩, ?_⟩, rfl, rfl⟩
      · exact fun a ha => absurd ha List.not_mem_nil
      · exact fun a ha => absurd ha List.not_mem_nil
      · exact fun a ha => absurd ha List.not_mem_nil
    · rintro ⟨rows, hrows, -, rfl, rfl⟩
      obtain rfl := Except.ok.inj hrows
      rfl
  | entry :: entries, audit, db, db', count, htomb => by
    rw [DurableOutbox.enqueueEach, bind_ok]
    simp only [DurableOutbox.enqueueAt, List.mapM_cons]
    constructor
    · rintro ⟨⟨d, new⟩, hhead, h⟩
      obtain ⟨row, hrow, hhead⟩ := bind_ok.mp hhead
      obtain ⟨⟨d', n⟩, htail, h⟩ := bind_ok.mp h
      obtain ⟨rfl, rfl⟩ := Prod.mk.inj (Except.ok.inj h)
      have hprepared := prepareAt_ok hrow
      obtain ⟨haudit, ⟨existing, hfound, hreplay, rfl, rfl⟩ | ⟨hnone, hitems, hbytes, rfl, rfl⟩⟩ :=
        (enqueueRow_ok htomb).mp hhead
      · obtain ⟨rows, hrows, hok, rfl, rfl⟩ := (enqueueEach_ok htomb).mp htail
        refine ⟨row :: rows, ?_, (accepted_known hfound).mpr ⟨haudit, hreplay, hok⟩, ?_⟩
        · exact bind_ok.mpr ⟨row, hrow, bind_ok.mpr ⟨rows, hrows, rfl⟩⟩
        · rw [additions_known hfound]
          exact ⟨rfl, Nat.zero_add _⟩
      · rw [← (insert_pending hprepared.pending).1] at htomb
        obtain ⟨rows, hrows, hok, rfl, rfl⟩ := (enqueueEach_ok htomb).mp htail
        refine ⟨row :: rows, ?_,
          (accepted_new hprepared hnone).mpr ⟨haudit, hitems, hbytes, hok⟩, ?_⟩
        · exact bind_ok.mpr ⟨row, hrow, bind_ok.mpr ⟨rows, hrows, rfl⟩⟩
        · rw [additions_new hnone, List.foldl_cons, List.length_cons]
          exact ⟨rfl, Nat.add_comm _ _⟩
    · rintro ⟨all, hall, hok, rfl, rfl⟩
      obtain ⟨row, hrow, hall⟩ := bind_ok.mp hall
      obtain ⟨rows, hrows, h⟩ := bind_ok.mp hall
      obtain rfl := Except.ok.inj h
      have hprepared := prepareAt_ok hrow
      rcases hfound : findRow db row.itemId with _ | existing
      · obtain ⟨haudit, hitems, hbytes, hok⟩ := (accepted_new hprepared hfound).mp hok
        have hhead := (enqueueRow_ok htomb).mpr
          ⟨haudit, .inr ⟨hfound, hitems, hbytes, rfl, rfl⟩⟩
        rw [← (insert_pending hprepared.pending).1] at htomb
        have htail := (enqueueEach_ok htomb).mpr ⟨rows, hrows, hok, rfl, rfl⟩
        refine ⟨_, bind_ok.mpr ⟨row, hrow, hhead⟩, bind_ok.mpr ⟨_, htail, ?_⟩⟩
        rw [additions_new hfound, List.foldl_cons, List.length_cons, Nat.add_comm]
        rfl
      · obtain ⟨haudit, hreplay, hok⟩ := (accepted_known hfound).mp hok
        have hhead := (enqueueRow_ok htomb).mpr
          ⟨haudit, .inl ⟨existing, hfound, hreplay, rfl, rfl⟩⟩
        have htail := (enqueueEach_ok htomb).mpr ⟨rows, hrows, hok, rfl, rfl⟩
        refine ⟨_, bind_ok.mpr ⟨row, hrow, hhead⟩, bind_ok.mpr ⟨_, htail, ?_⟩⟩
        rw [additions_known hfound]
        exact congrArg (fun n => Except.ok (_, n)) (Nat.zero_add _)

/-- Rows under one identifier hold one payload, among the rows and against the kept ones. -/
def SamePayloads (kept rows : List (Row Tag)) : Prop :=
  ∀ a ∈ kept ++ rows, ∀ b ∈ rows, a.itemId = b.itemId → a.payloadJson = b.payloadJson

omit [DecidableEq Tag] in
theorem samePayloads_known {kept rows : List (Row Tag)} {row previous : Row Tag}
    (hnodup : (kept.map Row.itemId).Nodup) (hmem : previous ∈ kept)
    (hid : previous.itemId = row.itemId) :
    SamePayloads kept (row :: rows) ↔
      previous.payloadJson = row.payloadJson ∧ SamePayloads kept rows := by
  constructor
  · intro hsame
    refine ⟨hsame previous (List.mem_append_left _ hmem) row List.mem_cons_self hid, ?_⟩
    intro a ha b hb
    refine hsame a ?_ b (List.mem_cons_of_mem _ hb)
    rcases List.mem_append.mp ha with ha | ha
    · exact List.mem_append_left _ ha
    · exact List.mem_append_right _ (List.mem_cons_of_mem _ ha)
  · rintro ⟨hpayload, hsame⟩
    -- the row is as good as the previous one
    have hrow : ∀ b ∈ rows, row.itemId = b.itemId → row.payloadJson = b.payloadJson := by
      intro b hb hb'
      rw [← hpayload]
      exact hsame previous (List.mem_append_left _ hmem) b hb (hid.trans hb')
    intro a ha b hb hab
    rcases List.mem_append.mp ha with ha' | ha'
    · rcases List.mem_cons.mp hb with rfl | hb'
      · rw [Table.eq_of_key hnodup ha' hmem (hab.trans hid.symm)]
        exact hpayload
      · exact hsame a (List.mem_append_left _ ha') b hb' hab
    · rcases List.mem_cons.mp ha' with rfl | har
      · rcases List.mem_cons.mp hb with rfl | hb'
        · rfl
        · exact hrow b hb' hab
      · rcases List.mem_cons.mp hb with rfl | hb'
        · exact (hrow a har hab.symm).symm
        · exact hsame a (List.mem_append_right _ har) b hb' hab

omit [DecidableEq Tag] in
theorem samePayloads_new {kept rows : List (Row Tag)} {row : Row Tag}
    (hfresh : ∀ r ∈ kept, r.itemId ≠ row.itemId) :
    SamePayloads kept (row :: rows) ↔ SamePayloads (kept ++ [row]) rows := by
  constructor
  · intro hsame a ha b hb
    refine hsame a ?_ b (List.mem_cons_of_mem _ hb)
    rwa [List.append_assoc, List.singleton_append] at ha
  · intro hsame a ha b hb hab
    have hmem : a ∈ kept ++ [row] ++ rows := by
      rwa [List.append_assoc, List.singleton_append]
    rcases List.mem_cons.mp hb with rfl | hb'
    · rcases List.mem_append.mp ha with ha' | ha'
      · exact absurd hab (hfresh a ha')
      · rcases List.mem_cons.mp ha' with rfl | ha'
        · rfl
        · refine (hsame b ?_ a ha' hab.symm).symm
          exact List.mem_append_left _ (List.mem_append_right _ List.mem_cons_self)
    · exact hsame a hmem b hb' hab

omit [DecidableEq Tag] in
/-- The rows of a batch, each at the first entry of its identifier. -/
theorem keepEntries_ok : ∀ {entries : List (Entry P)} {kept prepared : List (Row Tag)},
    (kept.map Row.itemId).Nodup →
      (entries.foldlM (fun prepared entry => do keepEntry prepared (← o.prepareAt entry)) kept =
          .ok prepared ↔
        ∃ rows, entries.mapM o.prepareAt = .ok rows ∧ SamePayloads kept rows ∧
          prepared = kept ++ Table.fresh Row.itemId (kept.map Row.itemId) rows)
  | [], kept, prepared, _ => by
    constructor
    · intro h
      obtain rfl := Except.ok.inj h
      exact ⟨[], rfl, fun a _ b hb => absurd hb List.not_mem_nil, (List.append_nil _).symm⟩
    · rintro ⟨rows, hrows, -, rfl⟩
      obtain rfl := Except.ok.inj hrows
      exact congrArg Except.ok (List.append_nil _).symm
  | entry :: entries, kept, prepared, hnodup => by
    rw [List.foldlM_cons, bind_ok]
    simp only [bind_ok, List.mapM_cons]
    rcases hrow : o.prepareAt entry with e | row
    · simp
    rcases hprevious : kept.find? fun previous => previous.itemId = row.itemId with _ | previous
    · have hfresh : ∀ r ∈ kept, r.itemId ≠ row.itemId := by simpa using hprevious
      have hkeys : (kept ++ [row]).map Row.itemId = kept.map Row.itemId ++ [row.itemId] := by
        rw [List.map_append, List.map_singleton]
      have hnodup' : ((kept ++ [row]).map Row.itemId).Nodup := by
        rw [hkeys]
        refine List.nodup_append.mpr ⟨hnodup, List.nodup_singleton _, fun a ha b hb => ?_⟩
        obtain ⟨r, hr, rfl⟩ := List.mem_map.mp ha
        rw [List.mem_singleton] at hb
        exact hb ▸ hfresh r hr
      have hnot : row.itemId ∉ kept.map Row.itemId := by
        intro hmem
        obtain ⟨r, hr, hid⟩ := List.mem_map.mp hmem
        exact hfresh r hr hid
      have hkeep : keepEntry kept row = .ok (kept ++ [row]) := by rw [keepEntry, hprevious]
      constructor
      · rintro ⟨kept', ⟨r, hr, hkept⟩, htail⟩
        obtain rfl := Except.ok.inj hr
        obtain rfl := Except.ok.inj (hkeep.symm.trans hkept)
        obtain ⟨rows, hrows, hsame, rfl⟩ := (keepEntries_ok hnodup').mp htail
        refine ⟨row :: rows, ⟨row, rfl, rows, hrows, rfl⟩, (samePayloads_new hfresh).mpr hsame, ?_⟩
        rw [Table.fresh_cons_new hnot, hkeys, List.append_assoc, List.singleton_append]
      · rintro ⟨all, ⟨r, hr, rows, hrows, h⟩, hsame, rfl⟩
        obtain rfl := Except.ok.inj hr
        obtain rfl := Except.ok.inj h
        refine ⟨kept ++ [row], ⟨row, rfl, hkeep⟩, (keepEntries_ok hnodup').mpr
          ⟨rows, hrows, (samePayloads_new hfresh).mp hsame, ?_⟩⟩
        rw [Table.fresh_cons_new hnot, hkeys, List.append_assoc, List.singleton_append]
    · have hmem : previous ∈ kept := List.mem_of_find?_eq_some hprevious
      have hid : previous.itemId = row.itemId := by simpa using List.find?_some hprevious
      have hknown : row.itemId ∈ kept.map Row.itemId := hid ▸ List.mem_map_of_mem hmem
      have hkeep : ∀ kept', keepEntry kept row = .ok kept' ↔
          previous.payloadJson = row.payloadJson ∧ kept = kept' := by
        intro kept'
        rw [keepEntry, hprevious]
        simp only [conflictError, if_error_ok, not_not, Except.ok.injEq]
      constructor
      · rintro ⟨kept', ⟨r, hr, hkept⟩, htail⟩
        obtain rfl := Except.ok.inj hr
        obtain ⟨hpayload, rfl⟩ := (hkeep kept').mp hkept
        obtain ⟨rows, hrows, hsame, rfl⟩ := (keepEntries_ok hnodup).mp htail
        refine ⟨row :: rows, ⟨row, rfl, rows, hrows, rfl⟩,
          (samePayloads_known hnodup hmem hid).mpr ⟨hpayload, hsame⟩, ?_⟩
        rw [Table.fresh_cons_known hknown]
      · rintro ⟨all, ⟨r, hr, rows, hrows, h⟩, hsame, rfl⟩
        obtain rfl := Except.ok.inj hr
        obtain rfl := Except.ok.inj h
        obtain ⟨hpayload, hsame⟩ := (samePayloads_known hnodup hmem hid).mp hsame
        refine ⟨kept, ⟨row, rfl, (hkeep kept).mpr ⟨hpayload, rfl⟩⟩,
          (keepEntries_ok hnodup).mpr ⟨rows, hrows, hsame, ?_⟩⟩
        rw [Table.fresh_cons_known hknown]

/-- The replays of a batch are checked, its new rows are added up. -/
theorem addEntries_ok : ∀ {prepared acc adds : List (Row Tag)},
    prepared.foldlM (o.addEntry db) acc = .ok adds ↔
      (∀ row ∈ prepared, ∀ existing, findRow db row.itemId = some existing →
        o.checkReplay existing row = .ok ()) ∧
        adds = acc ++ prepared.filter fun row => row.itemId ∉ db.rows.map Row.itemId
  | [], acc, adds => by
    constructor
    · intro h
      obtain rfl := Except.ok.inj h
      exact ⟨fun row hrow => absurd hrow List.not_mem_nil, (List.append_nil _).symm⟩
    · rintro ⟨-, rfl⟩
      exact congrArg Except.ok (List.append_nil _).symm
  | row :: prepared, acc, adds => by
    rw [List.foldlM_cons, bind_ok, List.forall_mem_cons]
    rcases hfound : findRow db row.itemId with _ | existing
    · have hnot : row.itemId ∉ db.rows.map Row.itemId := by
        rw [← findRow_isSome, hfound]
        exact Bool.false_ne_true
      rw [DurableOutbox.addEntry, hfound, List.filter_cons_of_pos (by simpa using hnot)]
      constructor
      · rintro ⟨acc', h, htail⟩
        obtain rfl := Except.ok.inj h
        obtain ⟨hall, rfl⟩ := addEntries_ok.mp htail
        refine ⟨⟨fun e he => by simp at he, hall⟩, ?_⟩
        rw [List.append_assoc, List.singleton_append]
      · rintro ⟨⟨-, hall⟩, rfl⟩
        refine ⟨_, rfl, addEntries_ok.mpr ⟨hall, ?_⟩⟩
        rw [List.append_assoc, List.singleton_append]
    · have hmem : row.itemId ∈ db.rows.map Row.itemId :=
        findRow_isSome.mp (by rw [hfound]; rfl)
      rw [DurableOutbox.addEntry, hfound, List.filter_cons_of_neg (by simpa using hmem)]
      constructor
      · rintro ⟨acc', h, htail⟩
        obtain ⟨_, hreplay, rfl⟩ := map_ok.mp h
        obtain ⟨hall, rfl⟩ := addEntries_ok.mp htail
        refine ⟨⟨fun e he => ?_, hall⟩, rfl⟩
        obtain rfl := Option.some.inj he
        exact hreplay
      · rintro ⟨⟨hreplay, hall⟩, rfl⟩
        exact ⟨acc, map_ok.mpr ⟨(), hreplay existing rfl, rfl⟩, addEntries_ok.mpr ⟨hall, rfl⟩⟩

/-- Checking the first entry of an identifier checks all of them. -/
theorem replays_iff {rows : List (Row Tag)} (hsame : SamePayloads [] rows) :
    (∀ row ∈ Table.fresh Row.itemId [] rows, ∀ existing,
        findRow db row.itemId = some existing → o.checkReplay existing row = .ok ()) ↔
      ∀ row ∈ rows, ∀ existing, findRow db row.itemId = some existing →
        o.checkReplay existing row = .ok () := by
  constructor
  · intro hfirst row hrow existing hfound
    obtain ⟨first, hmem, hid⟩ : ∃ f ∈ Table.fresh Row.itemId [] rows, f.itemId = row.itemId :=
      Table.exists_fresh hrow List.not_mem_nil
    obtain ⟨hverify, hpayload⟩ := checkReplay_ok.mp (hfirst first hmem existing (hid ▸ hfound))
    refine checkReplay_ok.mpr ⟨hverify, hpayload.trans ?_⟩
    exact hsame first (Table.mem_fresh hmem).1 row hrow hid
  · exact fun hall row hrow => hall row (Table.mem_fresh hrow).1

/-- The batch after its rows are prepared. -/
theorem enqueuePrepared_ok {audit : Bool} {rows : List (Row Tag)} {db' : Db Tag} {count : ℕ}
    (htomb : (db.rows.filter isDelivered).length ≤ o.deliveredTombstones)
    (hsame : SamePayloads [] rows) :
    o.enqueuePrepared audit (Table.fresh Row.itemId [] rows) db = .ok (db', count) ↔
      Accepted o db audit rows ∧ db' = (additions db rows).foldl Db.insert db ∧
        count = (additions db rows).length := by
  have hadds : (Table.fresh Row.itemId [] rows).filter
      (fun row => row.itemId ∉ db.rows.map Row.itemId) = additions db rows := by
    have hids : ∀ k, k ∈ db.rows.map Row.itemId ↔
        k ∈ ([] : List Str) ∨ k ∈ db.rows.map Row.itemId := fun k => by
      rw [List.mem_nil_iff, false_or]
    exact (List.filter_congr fun r _ => decide_eq_decide.mpr Iff.rfl).trans
      (@Table.filter_fresh _ _ _ Row.itemId _ _ _ hids rows)
  rw [DurableOutbox.enqueuePrepared]
  rcases rows with _ | ⟨row, rows⟩
  · rw [Table.fresh, if_pos rfl]
    constructor
    · intro h
      obtain ⟨rfl, rfl⟩ := Prod.mk.inj (Except.ok.inj h)
      refine ⟨⟨.inl rfl, ?_, ?_, .inl rfl⟩, rfl, rfl⟩
      · exact fun a ha => absurd ha List.not_mem_nil
      · exact fun a ha => absurd ha List.not_mem_nil
    · rintro ⟨-, rfl, rfl⟩
      rfl
  have hne : Table.fresh Row.itemId [] (row :: rows) ≠ [] := by
    rw [Table.fresh_cons_new List.not_mem_nil]
    exact List.cons_ne_nil _ _
  have hfold : ∀ adds, (Table.fresh Row.itemId [] (row :: rows)).foldlM (o.addEntry db) [] =
      .ok adds ↔ (∀ r ∈ row :: rows, ∀ existing, findRow db r.itemId = some existing →
        o.checkReplay existing r = .ok ()) ∧ adds = additions db (row :: rows) := by
    intro adds
    rw [addEntries_ok, replays_iff hsame, List.nil_append, hadds]
  rw [if_neg hne]
  simp only [bind_ok, hfold]
  constructor
  · rintro ⟨_, haudit, adds, ⟨hreplays, rfl⟩, h⟩
    split at h
    · rename_i hnil
      obtain ⟨rfl, rfl⟩ := Prod.mk.inj (Except.ok.inj h)
      refine ⟨⟨.inr haudit, ?_, hreplays, .inl hnil⟩, ?_⟩
      · exact fun a ha b hb => hsame a ha b hb
      · rw [hnil]
        exact ⟨rfl, rfl⟩
    · obtain ⟨d, hd, h⟩ := bind_ok.mp h
      rw [prune_none htomb] at hd
      obtain rfl := Except.ok.inj hd
      simp only [capacityError, if_error_ok, not_or, not_lt, Except.ok.injEq, Prod.mk.injEq] at h
      obtain ⟨hroom, rfl, rfl⟩ := h
      exact ⟨⟨.inr haudit, fun a ha b hb => hsame a ha b hb, hreplays, .inr hroom⟩, rfl, rfl⟩
  · rintro ⟨⟨haudit, -, hreplays, hroom⟩, rfl, rfl⟩
    refine ⟨(), haudit.resolve_left (List.cons_ne_nil _ _), _, ⟨hreplays, rfl⟩, ?_⟩
    split
    · rename_i hnil
      rw [hnil]
      rfl
    · rename_i hadd
      refine bind_ok.mpr ⟨db, prune_none htomb, ?_⟩
      simp only [capacityError, if_error_ok, not_or, not_lt, and_true]
      exact hroom.resolve_left hadd

/-- What the batch does. -/
theorem enqueueManyAt_ok {audit : Bool} {entries : List (Entry P)} {db' : Db Tag} {count : ℕ}
    (htomb : (db.rows.filter isDelivered).length ≤ o.deliveredTombstones)
    (hlen : entries.length ≤ 100) :
    o.enqueueManyAt audit entries db = .ok (db', count) ↔
      ∃ rows, entries.mapM o.prepareAt = .ok rows ∧ Accepted o db audit rows ∧
        db' = (additions db rows).foldl Db.insert db ∧ count = (additions db rows).length := by
  have hnil : (([] : List (Row Tag)).map Row.itemId).Nodup := List.nodup_nil
  rw [DurableOutbox.enqueueManyAt, if_neg (by omega), bind_ok]
  constructor
  · rintro ⟨prepared, hprepared, h⟩
    obtain ⟨rows, hrows, hsame, rfl⟩ := (keepEntries_ok hnil).mp hprepared
    exact ⟨rows, hrows, (enqueuePrepared_ok htomb hsame).mp h⟩
  · rintro ⟨rows, hrows, haccepted, hresult⟩
    have hsame : SamePayloads [] rows := fun a ha b hb => haccepted.consistent a ha b hb
    exact ⟨_, (keepEntries_ok hnil).mpr ⟨rows, hrows, hsame, rfl⟩,
      (enqueuePrepared_ok htomb hsame).mpr ⟨haccepted, hresult⟩⟩

/-- CORRECT: a batch returns what its entries one by one return, and raises when they do, exactly
    when no accepted batch repeats a new identifier that it stamps with a negative zero at first. -/
theorem enqueueMany_refines_iff (audit : Bool) (entries : List (Entry P))
    (htomb : (db.rows.filter isDelivered).length ≤ o.deliveredTombstones)
    (hlen : entries.length ≤ 100) :
    (∀ result, o.enqueueManyAt audit entries db = .ok result ↔
        o.enqueueEach audit entries db = .ok result) ↔
      ∀ rows, entries.mapM o.prepareAt = .ok rows → Accepted o db audit rows →
        KeepsStamps db rows := by
  constructor
  · intro hsame rows hrows haccepted
    have hbatch := (enqueueManyAt_ok htomb hlen).mpr ⟨rows, hrows, haccepted, rfl, rfl⟩
    obtain ⟨rows', hrows', hok, -⟩ := (enqueueEach_ok htomb).mp ((hsame _).mp hbatch)
    obtain rfl := Except.ok.inj (hrows.symm.trans hrows')
    exact hok.2
  · rintro hkeeps ⟨db', count⟩
    rw [enqueueManyAt_ok htomb hlen, enqueueEach_ok htomb]
    constructor
    · rintro ⟨rows, hrows, haccepted, hresult⟩
      exact ⟨rows, hrows, ⟨haccepted, hkeeps rows hrows haccepted⟩, hresult⟩
    · rintro ⟨rows, hrows, ⟨haccepted, -⟩, hresult⟩
      exact ⟨rows, hrows, haccepted, hresult⟩

/-- One item twice, with the stamp of the first entry. -/
def twice (first : Double) : List (Entry Unit) :=
  [("a".toList, (), .finite first), (" a".toList, (), .finite .zero)]

theorem enqueueMany_refines_twice :
    (∀ result, symbolicOutbox.enqueueManyAt false (twice .zero) Db.empty = .ok result ↔
        symbolicOutbox.enqueueEach false (twice .zero) Db.empty = .ok result) ↔
      ∀ rows, (twice .zero).mapM symbolicOutbox.prepareAt = .ok rows →
        Accepted symbolicOutbox Db.empty false rows → KeepsStamps Db.empty rows :=
  enqueueMany_refines_iff false (twice .zero) (Nat.zero_le _) (by decide)

/-- The batch takes an item twice under a negative zero, and `enqueue` raises at the second. -/
theorem repeated_negZero_raises : ¬∀ (Tag P J : Type) (_ : DecidableEq Tag)
    (o : DurableOutbox Tag P J) (db : Db Tag) (audit : Bool) (entries : List (Entry P)),
    (db.rows.filter isDelivered).length ≤ o.deliveredTombstones → entries.length ≤ 100 →
      ∀ result, o.enqueueManyAt audit entries db = .ok result ↔
        o.enqueueEach audit entries db = .ok result := by
  intro hall
  have hbatch : ∃ result,
      symbolicOutbox.enqueueManyAt false (twice .negZero) Db.empty = .ok result := ⟨_, rfl⟩
  have heach : ∃ e, symbolicOutbox.enqueueEach false (twice .negZero) Db.empty = .error e :=
    ⟨_, rfl⟩
  obtain ⟨result, hresult⟩ := hbatch
  obtain ⟨e, he⟩ := heach
  have hsame := (hall _ _ _ _ symbolicOutbox Db.empty false (twice .negZero) (Nat.zero_le _)
    (by decide) result).mp hresult
  rw [he] at hsame
  cases hsame

end Angerona.Outbox
