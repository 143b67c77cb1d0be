import Angerona.Remediation.Custody

/-!
    The retained receipt chain.

    `verify_receipt_chain` takes the stored rows from the oldest one, loads each record and each
    receipt from its text, and checks it against the hash of the row before. A row is sealed when
    its receipt was made for its record after a given hash; a linked log of sealed rows is what the
    checker accepts, up to the applications that were never verified. -/

namespace Angerona.Remediation
open Text PyJson Raising Transition

/-! ### Checking the chain -/

/-- What `verify_receipt_chain` returns. -/
structure ChainStatus where
  valid : Bool
  verifiedReceipts : ℕ
  /-- Every row has a receipt. -/
  legacyRows : ℕ
  brokenId : Option ℕ
  headHash : Str
  reason : Str

/-- The stored record, as it is loaded. -/
def Entry.stored (e : Entry) : Value :=
  match e.record with
  | none => .null
  | some record => record.loads

section Chain

-- `str` of a value that is not a text
variable (P : Platform) (str : Value → Str)

/-- The hash the first retained receipt points to; `none` when it is not a dictionary. -/
def firstPrevious : Value → Option Str
  | .dict doc =>
    match getItem "previous_receipt_hash".toList doc with
    | .str s => some (orText s genesisHash)
    | v => some (if truthy v then str v else genesisHash)
  | _ => none

/-- The loop of `verify_receipt_chain`. -/
def verifyRows (expected head : Str) (verified : ℕ) : List LogRow → Except JsonError ChainStatus
  | [] => .ok ⟨true, verified, 0, none, head, "retained receipt chain verified".toList⟩
  | row :: rows => do
    let result ← verifyReceipt P row.receipt.loads row.stored expected row.receiptHash
    if result.valid then verifyRows result.hash result.hash (verified + 1) rows
    else .ok ⟨false, verified, 0, some row.id, head, result.reason⟩

/-- `max(1, min(MAX_ROWS, int(limit)))`. -/
def bounded (limit : ℤ) : ℕ := (max 1 (min (maxRows : ℤ) limit)).toNat

/-- `verify_receipt_chain`. -/
def verifyReceiptChain (limit : ℤ) (db : Db) : Except JsonError ChainStatus :=
  match db.log.take (bounded limit) with
  | [] => .ok ⟨true, 0, 0, none, [], "no proof receipts recorded yet".toList⟩
  | first :: rows =>
    match firstPrevious str first.receipt.loads with
    | none => .ok ⟨false, 0, 0, some first.id, [], "first receipt is not valid JSON".toList⟩
    | some expected => verifyRows P expected [] 0 (first :: rows)

end Chain

/-! ### Sealed rows -/

section Sealed

variable {P : Platform} {previous hash : Str} {e : Entry}

/-- The entry holds the receipt that was made for its record after `previous`. -/
def Sealed (P : Platform) (previous : Str) (e : Entry) : Prop :=
  ∃ args receipt, createReceipt P args = .ok (receipt, e.receiptHash) ∧
    args.previous = previous ∧ args.outcome = e.outcome ∧ args.verified = e.verified ∧
    canonical P (.dict receipt) = .ok e.receipt ∧
    recordDigest P e.stored = recordDigest P args.record

/-- Every row is sealed after the row before it, the first one after `previous`. -/
def Linked (P : Platform) : Str → List LogRow → Prop
  | _, [] => True
  | previous, row :: rows => Sealed P previous row.toEntry ∧ Linked P row.receiptHash rows

/-- The hash the next receipt points to. -/
def lastHash (previous : Str) (log : List LogRow) : Str :=
  (log.getLast?.map (·.receiptHash)).getD previous

theorem linked_append {log : List LogRow} {row : LogRow} (h : Linked P previous log)
    (hrow : Sealed P (lastHash previous log) row.toEntry) : Linked P previous (log ++ [row]) := by
  induction log generalizing previous with
  | nil => exact ⟨hrow, trivial⟩
  | cons r log ih =>
    refine ⟨h.1, ih h.2 ?_⟩
    cases log with
    | nil => exact hrow
    | cons s log => exact hrow

/-- Rows dropped from the front leave a linked log. -/
theorem linked_drop {log : List LogRow} (h : Linked P previous log) (n : ℕ) :
    ∃ previous, Linked P previous (log.drop n) := by
  induction n generalizing previous log with
  | zero => exact ⟨previous, h⟩
  | succ n ih =>
    cases log with
    | nil => exact ⟨previous, h⟩
    | cons row log => exact ih h.2

theorem linked_take {log : List LogRow} (h : Linked P previous log) (n : ℕ) :
    Linked P previous (log.take n) := by
  induction n generalizing previous log with
  | zero => exact trivial
  | succ n ih =>
    cases log with
    | nil => exact trivial
    | cons row log => exact ⟨h.1, ih h.2⟩

/-- A row of a linked log stands after the hash of the row before it. -/
theorem Linked.row {log : List LogRow} {row : LogRow} {n : ℕ} (h : Linked P previous log)
    (hrow : log[n]? = some row) : Sealed P (lastHash previous (log.take n)) row.toEntry := by
  induction log generalizing previous n with
  | nil => simp at hrow
  | cons r log ih =>
    cases n with
    | zero =>
      obtain rfl := Option.some.inj hrow
      exact h.1
    | succ n =>
      have hnext := ih h.2 hrow
      rw [List.take_succ_cons]
      cases hlast : log.take n with
      | nil => rwa [hlast] at hnext
      | cons s rows => rwa [hlast] at hnext

theorem Sealed.length (h : Sealed P previous e) : e.receiptHash.length = 64 := by
  obtain ⟨args, receipt, hcreate, -⟩ := h
  obtain ⟨digest, sig, -, -, -, hhash⟩ := createReceipt_ok hcreate
  obtain ⟨text, -, hhash⟩ := map_ok.mp hhash
  rw [← hhash]
  exact P.sha256_length text

theorem Linked.length {log : List LogRow} (h : Linked P previous log) :
    ∀ row ∈ log, row.receiptHash.length = 64 := by
  induction log generalizing previous with
  | nil => simp
  | cons r log ih =>
    intro row hrow
    rcases List.mem_cons.mp hrow with rfl | hrow
    · exact h.1.length
    · exact ih h.2 row hrow

/-- The receipt head is the hash of the last row. -/
theorem Linked.head {db : Db} (h : Linked P previous db.log) :
    db.receiptHead = lastHash genesisHash db.log := by
  have hall : (db.log.filter fun row => row.receiptHash ≠ []) = db.log := by
    refine List.filter_eq_self.mpr fun row hrow => ?_
    have hlen := h.length row hrow
    cases hhash : row.receiptHash with
    | nil => simp [hhash] at hlen
    | cons c s => simp
  rw [Db.receiptHead, hall, lastHash]

/-- A sealed row verifies where it stands, unless it records an unproven application. -/
theorem Sealed.verifies (h : Sealed P previous e) :
    verifyReceipt P e.receipt.loads e.stored previous e.receiptHash =
      .ok ⟨!unproven e.outcome e.verified,
        if unproven e.outcome e.verified then
          "an applied action lacks a passed postcondition".toList else "verified".toList,
        e.receiptHash⟩ := by
  obtain ⟨args, receipt, hcreate, rfl, houtcome, hverified, htext, hrecord⟩ := h
  rw [← houtcome, ← hverified]
  exact verifyReceipt_created hcreate htext hrecord

theorem ReceiptArgs.previous_ne_nil (args : ReceiptArgs) : args.previous ≠ [] := by
  rw [ReceiptArgs.previous]
  split
  · decide
  · rename_i hlen
    rintro hnil
    rw [hnil] at hlen
    simp at hlen

/-- The first retained receipt says which hash it was made after. -/
theorem Sealed.firstPrevious (str : Value → Str) (h : Sealed P previous e) :
    firstPrevious str e.receipt.loads = some previous := by
  obtain ⟨args, receipt, hcreate, rfl, -, -, htext, -⟩ := h
  obtain ⟨digest, sig, -, -, hreceipt, -⟩ := createReceipt_ok hcreate
  rw [hreceipt] at htext
  rw [loads_record (args.plain digest sig) (args.nodup digest sig) htext]
  have hperm := List.perm_insertionSort textLe (args.signed digest sig)
  have hn := (hperm.map Prod.fst).nodup_iff.mpr (args.nodup digest sig)
  have hmem : ("previous_receipt_hash".toList, Value.str args.previous) ∈ args.signed digest sig :=
    List.mem_append_left _ (List.mem_of_getElem? (i := 10) rfl)
  have hget := getItem_record hn (hperm.mem_iff.mpr hmem)
  rw [record, Remediation.firstPrevious, hget]
  simp [orText, args.previous_ne_nil]

/-- The loop accepts a linked log exactly when no row records an unproven application. -/
theorem verifyRows_linked {rows : List LogRow} (h : Linked P previous rows) (head : Str) (n : ℕ) :
    ∃ status, verifyRows P previous head n rows = .ok status ∧
      (status.valid = true ↔ ∀ row ∈ rows, unproven row.outcome row.verified = false) := by
  induction rows generalizing previous head n with
  | nil => exact ⟨_, rfl, by simp⟩
  | cons row rows ih =>
    have hrow := h.1.verifies
    cases hu : unproven row.outcome row.verified with
    | true =>
      refine ⟨⟨false, n, 0, some row.id, head,
        "an applied action lacks a passed postcondition".toList⟩, ?_, by simp [hu]⟩
      rw [verifyRows, hrow, hu]
      rfl
    | false =>
      obtain ⟨status, hstatus, hvalid⟩ := ih h.2 row.receiptHash (n + 1)
      refine ⟨status, ?_, by simpa [hu] using hvalid⟩
      rw [verifyRows, hrow, hu]
      exact hstatus

/-- The checker accepts a linked log exactly when no row it looks at records an unproven
    application. -/
theorem verifyReceiptChain_linked {db : Db} (h : Linked P previous db.log) (str : Value → Str)
    (limit : ℤ) : ∃ status, verifyReceiptChain P str limit db = .ok status ∧
      (status.valid = true ↔
        ∀ row ∈ db.log.take (bounded limit), unproven row.outcome row.verified = false) := by
  have htake := linked_take h (bounded limit)
  rw [verifyReceiptChain]
  generalize db.log.take (bounded limit) = rows at htake
  cases rows with
  | nil => exact ⟨_, rfl, by simp⟩
  | cons first rows =>
    simp only [htake.1.firstPrevious str]
    exact verifyRows_linked htake [] 0

end Sealed

/-! ### The entries of the three operations -/

section Entries

variable {P : Platform} {previous : Str} {e : Entry}

/-- A record stored as JSON has, once it is loaded, the digest it had. -/
theorem recordDigest_loads {d : Dict} {sortKeys : Bool} {j : Json} {digest : Str}
    (ha : (Value.dict d).aligned P.repr = true)
    (hj : (Value.dict d).dumps P.repr sortKeys = .ok j)
    (hdigest : recordDigest P (.dict d) = .ok digest) :
    recordDigest P j.loads = recordDigest P (.dict d) := by
  obtain ⟨c, hc, -⟩ := map_ok.mp hdigest
  have hloads := dumps_loads ha hj hc
  have hdict : ∃ d', j.loads = .dict d' := by
    rw [Value.dumps] at hj
    obtain ⟨items, -, hj⟩ := bind_ok.mp hj
    obtain ⟨sorted, -, hj⟩ := bind_ok.mp hj
    obtain ⟨members, -, hj⟩ := bind_ok.mp hj
    exact ⟨_, congrArg Json.loads (Except.ok.inj hj).symm⟩
  obtain ⟨d', hd'⟩ := hdict
  rw [hd'] at hloads ⊢
  have hc : (Value.dict d).dumps P.repr true = .ok c := hc
  have hempty : ∀ d : Dict, orEmpty (.dict d) = .dict d := fun _ => rfl
  rw [recordDigest, recordDigest, canonical, canonical, hempty, hempty, hloads, hc]

theorem admitted_ok {α : Type} {x : Except JsonError α} {a : α} (h : admitted x = .ok a) :
    x = .ok a := by
  cases x with
  | error e => simp [admitted] at h
  | ok b => exact congrArg _ (Except.ok.inj h)

/-- `log` seals the entry of a record with aligned keys. -/
theorem logEntry_sealed {args : LogArgs} (hlen : previous.length = 64)
    (ha : args.record.aligned P.repr = true) (h : logEntry P args previous = .ok e) :
    Sealed P previous e := by
  obtain ⟨hargs, h⟩ := if_error_ok.mp h
  obtain ⟨⟨receipt, hash⟩, hcreate, h⟩ := bind_ok.mp h
  obtain ⟨record, hrecord, h⟩ := bind_ok.mp h
  obtain ⟨text, htext, h⟩ := bind_ok.mp h
  obtain ⟨-, h⟩ := if_error_ok.mp h
  obtain rfl := Except.ok.inj h
  have hcreate := admitted_ok hcreate
  obtain ⟨digest, -, hdigest, -⟩ := createReceipt_ok hcreate
  refine ⟨_, receipt, hcreate, ?_, rfl, rfl, admitted_ok htext, ?_⟩
  · rw [ReceiptArgs.previous, if_neg (by simpa using hlen)]
  · have hrecord := admitted_ok hrecord
    have hkind : isRecord args.record = true := by
      rw [not_or, not_not] at hargs
      exact not_not.mp hargs.2
    cases hv : args.record with
    | null =>
      rw [hv] at hrecord
      obtain rfl := Except.ok.inj hrecord
      rfl
    | dict d =>
      rw [hv] at hrecord ha hdigest
      obtain ⟨j, hj, rfl⟩ := map_ok.mp hrecord
      exact recordDigest_loads ha hj hdigest
    | bool b => simp [hv, isRecord] at hkind
    | int n => simp [hv, isRecord] at hkind
    | float f => simp [hv, isRecord] at hkind
    | str s => simp [hv, isRecord] at hkind
    | list xs => simp [hv, isRecord] at hkind
    | other t => simp [hv, isRecord] at hkind

theorem encodeRecord_ok {record : Value} {encoded : Json}
    (h : encodeRecord P record = .ok encoded) : canonical P record = .ok encoded := by
  cases record with
  | dict d =>
    obtain ⟨j, hj, h⟩ := bind_ok.mp h
    obtain ⟨-, h⟩ := if_error_ok.mp h
    obtain rfl := Except.ok.inj h
    exact ofJson_ok hj
  | _ => simp [encodeRecord] at h

theorem decodeRecord_aligned {encoded : Json} {d : Dict} (h : decodeRecord P encoded = .ok d) :
    (Value.dict d).aligned P.repr = true := by
  obtain ⟨-, h⟩ := if_error_ok.mp h
  split at h
  · rename_i d' hd
    obtain rfl := Except.ok.inj h
    exact hd ▸ aligned_loads encoded
  · simp at h

/-- A completed transaction seals the entry of its normalized record. -/
theorem completionEntry_sealed {row : TxRow} {trigger : Str} {completion : Completion}
    {normalized : Dict} {encoded : Json} {stamp : Stamp} (hlen : previous.length = 64)
    (ha : (Value.dict normalized).aligned P.repr = true)
    (hencoded : canonical P (.dict normalized) = .ok encoded)
    (h : completionEntry P row trigger completion normalized encoded stamp previous = .ok e) :
    Sealed P previous e := by
  obtain ⟨⟨receipt, hash⟩, hcreate, h⟩ := bind_ok.mp h
  obtain ⟨text, htext, h⟩ := bind_ok.mp h
  obtain rfl := Except.ok.inj h
  have hcreate := ofJson_ok hcreate
  obtain ⟨digest, -, hdigest, -⟩ := createReceipt_ok hcreate
  refine ⟨_, receipt, hcreate, ?_, rfl, rfl, ofJson_ok htext, recordDigest_loads ha hencoded hdigest⟩
  rw [ReceiptArgs.previous, if_neg (by simpa using hlen)]

/-- Fields under names, set in a dictionary that can be sorted, keep it aligned. -/
theorem aligned_setFields {fields : List (Str × Value)} {d : Dict}
    (hf : ∀ f ∈ fields, f.2.aligned P.repr = true) (ha : (Value.dict d).aligned P.repr = true)
    (hs : ∀ k ∈ (setFields fields d).map Prod.fst, ∃ s, k = Key.str s) :
    (Value.dict (setFields fields d)).aligned P.repr = true := by
  simp only [Value.aligned, Bool.and_eq_true] at ha
  have hn : (d.map Prod.fst).Nodup :=
    (alignedKeys_pairwise ha.1).imp fun {a b} h (he : a = b) => Key.agrees_ne h (he ▸ rfl)
  have hgen : ∀ (fields : List (Str × Value)) (d : Dict),
      (∀ f ∈ fields, f.2.aligned P.repr = true) → (d.map Prod.fst).Nodup →
      (∀ item ∈ d, item.2.aligned P.repr = true) →
      ((setFields fields d).map Prod.fst).Nodup ∧
        ∀ item ∈ setFields fields d, item.2.aligned P.repr = true := by
    intro fields
    induction fields with
    | nil => exact fun d _ hn hd => ⟨hn, hd⟩
    | cons f fields ih =>
      intro d hf hn hd
      refine ih _ (fun g hg => hf g (List.mem_cons_of_mem _ hg)) (setItem_nodup hn) fun item hi => ?_
      rcases mem_setItem hi with hi | rfl
      · exact hd item hi
      · exact hf f List.mem_cons_self
  obtain ⟨hnodup, hitems⟩ := hgen fields d hf hn (alignedItems_iff.mp ha.2)
  rw [Value.aligned, alignedKeys_str hnodup hs, Bool.true_and]
  exact alignedItems_iff.mpr hitems

theorem setFields_mem {fields : List (Str × Value)} {d : Dict} {k : Key}
    (h : k ∈ d.map Prod.fst) : k ∈ (setFields fields d).map Prod.fst := by
  induction fields generalizing d with
  | nil => exact h
  | cons f fields ih =>
    refine ih ?_
    rw [setItem_keys]
    split
    · exact h
    · exact List.mem_append_left _ h

/-- A dictionary that is dumped with sorted keys and has a string key has only string keys. -/
theorem string_keys {d : Dict} {j : Json} {s : Str} (hj : canonical P (.dict d) = .ok j)
    (hs : Key.str s ∈ d.map Prod.fst) : ∀ k ∈ d.map Prod.fst, ∃ t, k = Key.str t := by
  rw [canonical, Value.dumps] at hj
  obtain ⟨items, hitems, hj⟩ := bind_ok.mp hj
  obtain ⟨sorted, hsorted, -⟩ := bind_ok.mp hj
  rw [← dumpsItems_keys hitems] at hs ⊢
  obtain ⟨hcomparable, -⟩ := if_error_ok.mp hsorted
  intro k hk
  obtain ⟨a, ha, hak⟩ := List.mem_map.mp hs
  obtain ⟨b, hb, rfl⟩ := List.mem_map.mp hk
  by_cases hlen : 2 ≤ items.length
  · rw [not_and, not_not] at hcomparable
    have hall := hcomparable hlen
    have hlt := List.all_eq_true.mp (List.all_eq_true.mp hall a ha) b hb
    rw [hak] at hlt
    cases hkey : b.1 <;> simp [hkey, Key.lt, Key.num] at hlt ⊢
  · cases items with
    | nil => simp at ha
    | cons i items =>
      rw [List.length_cons] at hlen
      have hnil : items = [] := List.length_eq_zero_iff.mp (by omega)
      subst hnil
      rw [List.mem_singleton] at ha hb
      exact ⟨s, by rw [hb, ← ha, hak]⟩

theorem terminalFields_aligned {result : Str} {fields : List (Str × Value)}
    (h : terminalFields result = some fields) :
    (∀ f ∈ fields, f.2.aligned P.repr = true) ∧
      "transaction_state".toList ∈ fields.map Prod.fst := by
  rw [terminalFields] at h
  split at h
  · obtain rfl := Option.some.inj h
    simp [Value.aligned]
  split at h
  · obtain rfl := Option.some.inj h
    simp [Value.aligned]
  split at h
  · obtain rfl := Option.some.inj h
    simp [Value.aligned]
  split at h
  · obtain rfl := Option.some.inj h
    simp [Value.aligned]
  · simp at h

theorem setFields_names {fields : List (Str × Value)} {d : Dict} {s : Str}
    (h : s ∈ fields.map Prod.fst) : Key.str s ∈ (setFields fields d).map Prod.fst := by
  induction fields generalizing d with
  | nil => simp at h
  | cons f fields ih =>
    rw [List.map_cons, List.mem_cons] at h
    rcases h with rfl | h
    · refine @setFields_mem fields _ _ ?_
      rw [setItem_keys]
      split
      · assumption
      · exact List.mem_append_right _ (List.mem_singleton_self _)
    · exact ih h

/-- The normalized record of a record with aligned keys has aligned keys, when it is accepted. -/
theorem normalizedRecord_aligned {record : Value} {result : Str} {normalized : Dict}
    {encoded : Json} (ha : record.aligned P.repr = true)
    (h : normalizedRecord record result = .ok normalized)
    (hencoded : canonical P (.dict normalized) = .ok encoded) :
    (Value.dict normalized).aligned P.repr = true := by
  rw [normalizedRecord.eq_def] at h
  cases record with
  | dict d =>
    cases hfields : terminalFields result with
    | none => simp [hfields] at h
    | some fields =>
      simp only [hfields] at h
      obtain rfl := Except.ok.inj h
      obtain ⟨hplain, hname⟩ := terminalFields_aligned (P := P) hfields
      exact aligned_setFields hplain ha (string_keys hencoded (setFields_names hname))
  | _ => simp at h

end Entries

/-! ### Runs -/

/-- The records of a call have aligned keys, and a receipt about to be inserted was made after the
    head of the log. -/
def Fits (P : Platform) (w : World) (label : ℕ × Call) : Prop :=
  match label.2 with
  | .log args => args.record.aligned P.repr = true
  | .finish _ _ record _ => record.aligned P.repr = true
  | .proceed _ => ∀ inst previous entry, w.instances[label.1]? = some inst →
      inst.held = some (.insert previous entry) → previous = w.db.receiptHead
  | _ => True

/-- Binding a coordinator leaves the rest of a call alone. -/
theorem bind_held {registry : List (Str × Bool)} {inst bound : Instance}
    (h : inst.bind registry = .ok bound) : bound.held = inst.held := by
  rw [Instance.bind] at h
  split at h
  · exact Except.ok.inj h ▸ rfl
  · obtain ⟨-, h⟩ := if_error_ok.mp h
    obtain ⟨keys, -, h⟩ := bind_ok.mp h
    obtain ⟨-, h⟩ := if_error_ok.mp h
    exact Except.ok.inj h ▸ rfl

/-- An entry that an instance is about to insert is sealed. -/
def Ready (P : Platform) (inst : Instance) : Prop :=
  ∀ previous entry, inst.held = some (.insert previous entry) → Sealed P previous entry

/-- What holds in every reachable world. -/
structure Chained (P : Platform) (w : World) : Prop where
  linked : ∃ previous, Linked P previous w.db.log
  ids : (w.db.log.map (·.id)).Pairwise (· < ·)
  bound : ∀ row ∈ w.db.log, row.id ≤ w.db.logSeq
  ready : ∀ inst ∈ w.instances, Ready P inst

section Runs

variable {P : Platform} {w w' : World} {i : ℕ} {inst : Instance}

namespace Chained

theorem start : Chained P World.start := by
  constructor <;> simp [World.start, Db.empty]
  exact ⟨genesisHash, trivial⟩

theorem head_length (hc : Chained P w) : w.db.receiptHead.length = 64 := by
  obtain ⟨previous, hlinked⟩ := hc.linked
  rw [hlinked.head, lastHash]
  cases hlast : w.db.log.getLast? with
  | none => rfl
  | some row => exact hlinked.length row (List.mem_of_getLast? hlast)

/-- A world with the same receipts, whose instances are ready. -/
theorem same (hc : Chained P w) (hlog : w'.db.log = w.db.log) (hseq : w'.db.logSeq = w.db.logSeq)
    (hready : ∀ inst ∈ w'.instances, Ready P inst) : Chained P w' where
  linked := hlog ▸ hc.linked
  ids := hlog ▸ hc.ids
  bound := hlog ▸ hseq ▸ hc.bound
  ready := hready

theorem setInstance (hc : Chained P w) (hi : Ready P inst) : Chained P (w.setInstance i inst) := by
  refine hc.same rfl rfl fun other hother => ?_
  rcases List.mem_or_eq_of_mem_set hother with hother | rfl
  · exact hc.ready other hother
  · exact hi

/-- A receipt made after the head is inserted. -/
theorem insert {db db' : Db} {e : Entry} (hc : Chained P w) (hs : Sealed P w.db.receiptHead e)
    (hdb : db.insertReceipt e = .ok db') (hlog : db.log = w.db.log)
    (hseq : db.logSeq = w.db.logSeq) : Chained P { w with db := db' } := by
  obtain rfl := insertReceipt_ok hdb
  refine ⟨?_, ?_, ?_, hc.ready⟩
  · obtain ⟨previous, hlinked⟩ := hc.linked
    rw [hlinked.head] at hs
    rw [hlog]
    cases hnil : w.db.log with
    | nil =>
      rw [hnil] at hs
      exact ⟨genesisHash, hs, trivial⟩
    | cons row rows =>
      rw [hnil] at hs hlinked
      exact ⟨previous, linked_append hlinked hs⟩
  · rw [hlog, hseq, List.map_append]
    refine List.pairwise_append.mpr ⟨hc.ids, List.pairwise_singleton _ _, ?_⟩
    intro a ha b hb
    obtain ⟨row, hrow, rfl⟩ := List.mem_map.mp ha
    obtain rfl := List.mem_singleton.mp hb
    exact Nat.lt_succ_of_le (hc.bound row hrow)
  · rw [hlog, hseq]
    intro row hrow
    rcases List.mem_append.mp hrow with hrow | hrow
    · exact (hc.bound row hrow).trans (Nat.le_succ _)
    · obtain rfl := List.mem_singleton.mp hrow
      exact le_refl _

/-- In a log in the order of its ids, the rows up to an id are the first ones. -/
theorem delete_le {log : List LogRow} (h : (log.map (·.id)).Pairwise (· < ·)) (k : ℕ) :
    ∃ n, Table.delete (fun row => row.id ≤ k) log = log.drop n := by
  induction log with
  | nil => exact ⟨0, rfl⟩
  | cons row log ih =>
    rw [List.map_cons, List.pairwise_cons] at h
    by_cases hk : row.id ≤ k
    · obtain ⟨n, hn⟩ := ih h.2
      refine ⟨n + 1, ?_⟩
      rw [List.drop_succ_cons, ← hn, Table.delete, List.filter_cons_of_neg (by simpa using hk)]
      rfl
    · refine ⟨0, List.filter_eq_self.mpr fun other hother => ?_⟩
      rcases List.mem_cons.mp hother with rfl | hother
      · simpa using hk
      · have := h.1 other.id (List.mem_map_of_mem hother)
        simp
        omega

theorem pruneLog (hc : Chained P w) : Chained P { w with db := w.db.pruneLog } := by
  rw [Db.pruneLog]
  split
  · obtain ⟨n, hn⟩ := delete_le hc.ids ((w.db.log.map (·.id)).foldl max 0 - maxRows)
    obtain ⟨previous, hlinked⟩ := hc.linked
    simp only [hn]
    refine ⟨linked_drop hlinked n, ?_, fun row hrow => ?_, hc.ready⟩
    · rw [List.map_drop]
      exact hc.ids.sublist (List.drop_sublist n _)
    · exact hc.bound row (List.mem_of_mem_drop hrow)
  · exact hc

theorem noteCommitted (hc : Chained P w) (fails : Bool) :
    Chained P (w.noteCommitted i inst fails) := by
  rw [World.noteCommitted]
  split
  · exact hc.setInstance fun _ _ h => by simp at h
  · refine setInstance ?_ fun _ _ h => by simp at h
    cases fails with
    | true => exact hc
    | false => exact hc.pruneLog

/-- The log and the instances of a call that writes no receipt. -/
theorem keep (hc : Chained P w) (hlog : w'.db.log = w.db.log) (hseq : w'.db.logSeq = w.db.logSeq)
    (hinstances : w'.instances = w.instances) : Chained P w' :=
  hc.same hlog hseq fun inst hinst => hc.ready inst (hinstances ▸ hinst)

theorem finish {owner : ℕ} {result : Str} {record : Value} {stamp : Stamp} (hc : Chained P w)
    (ha : record.aligned P.repr = true)
    (h : w.finish P i inst owner result record stamp = .ok w') : Chained P w' := by
  rw [World.finish] at h
  split at h
  · simp at h
  obtain ⟨normalized, hnormalized, h⟩ := bind_ok.mp h
  obtain ⟨encoded, hencoded, h⟩ := bind_ok.mp h
  obtain ⟨capability, -, h⟩ := bind_ok.mp h
  obtain ⟨db, hdb, h⟩ := bind_ok.mp h
  obtain rfl := Except.ok.inj h
  obtain ⟨row, entry, hentry, hinsert⟩ := finish_ok hdb
  have hcanonical := encodeRecord_ok hencoded
  have hsealed := completionEntry_sealed hc.head_length
    (normalizedRecord_aligned ha hnormalized hcanonical) hcanonical hentry
  exact (hc.insert hsealed hinsert rfl rfl).setInstance fun _ _ h => by simp at h

theorem finishReconciliation {coordinator capability proof : ℕ} {stamp : Stamp}
    (hc : Chained P w)
    (h : w.finishReconciliation P i inst coordinator capability proof stamp = .ok w') :
    Chained P w' := by
  obtain ⟨registry, -, h⟩ := bind_ok.mp h
  obtain ⟨recovery, -, h⟩ := bind_ok.mp h
  split at h
  · simp at h
  obtain ⟨-, h⟩ := if_error_ok.mp h
  obtain ⟨-, h⟩ := if_error_ok.mp h
  split at h
  · simp at h
  obtain ⟨normalized, hnormalized, h⟩ := bind_ok.mp h
  obtain ⟨encoded, hencoded, h⟩ := bind_ok.mp h
  obtain ⟨⟨row, claim, supplied⟩, -, h⟩ := bind_ok.mp h
  obtain ⟨-, h⟩ := if_error_ok.mp h
  obtain ⟨-, h⟩ := if_error_ok.mp h
  obtain ⟨db, hdb, h⟩ := bind_ok.mp h
  obtain rfl := Except.ok.inj h
  obtain ⟨entry, hentry, -, db₁, hinsert, rfl⟩ := reconcile_ok hdb
  have hcanonical := encodeRecord_ok hencoded
  have hsealed := completionEntry_sealed hc.head_length (decodeRecord_aligned hnormalized)
    hcanonical hentry
  have hinserted := hc.insert hsealed hinsert rfl rfl
  refine setInstance (hinserted.keep ?_ ?_ ?_) fun _ _ h => by simp at h
  · rfl
  · rfl
  · rfl

theorem log {args : LogArgs} (hc : Chained P w) (ha : args.record.aligned P.repr = true)
    (h : w.log P i inst args = .ok w') : Chained P w' := by
  obtain ⟨entry, hentry, h⟩ := bind_ok.mp h
  obtain rfl := Except.ok.inj h
  refine hc.setInstance fun previous e he => ?_
  obtain ⟨rfl, rfl⟩ := Held.insert.inj (Option.some.inj he)
  exact logEntry_sealed hc.head_length ha hentry

theorem call {c : Call} (hc : Chained P w) (hfits : Fits P w (i, c)) (hinst : inst ∈ w.instances)
    (h : w.call P i inst c = .ok w') : Chained P w' := by
  cases c with
  | init => exact Except.ok.inj h ▸ hc
  | proceed fails => exact Except.ok.inj h ▸ hc
  | bindCoordinator registry =>
    obtain ⟨bound, hbound, rfl⟩ := map_ok.mp h
    refine hc.setInstance fun previous e he => hc.ready inst hinst previous e ?_
    rw [← he, bind_held hbound]
  | prepare args =>
    obtain ⟨trigger, -, h⟩ := bind_ok.mp h
    obtain ⟨mitre, -, h⟩ := bind_ok.mp h
    obtain ⟨actionKey, -, h⟩ := bind_ok.mp h
    obtain ⟨actionTitle, -, h⟩ := bind_ok.mp h
    obtain ⟨encoded, -, h⟩ := bind_ok.mp h
    obtain ⟨db, hdb, h⟩ := bind_ok.mp h
    obtain rfl := Except.ok.inj h
    obtain ⟨-, kept, row, -, -, -, rfl⟩ := prepare_ok hdb
    exact hc.keep rfl rfl rfl
  | transition owner state record =>
    obtain ⟨-, h⟩ := if_error_ok.mp h
    obtain ⟨capability, -, h⟩ := bind_ok.mp h
    obtain ⟨encoded, -, h⟩ := bind_ok.mp h
    obtain ⟨db, hdb, h⟩ := bind_ok.mp h
    obtain rfl := Except.ok.inj h
    obtain rfl := transition_ok hdb
    exact hc.keep rfl rfl rfl
  | finish owner result record stamp => exact hc.finish hfits h
  | claim coordinator transactionId secret =>
    obtain ⟨registry, -, h⟩ := bind_ok.mp h
    obtain ⟨made, hmade, h⟩ := bind_ok.mp h
    split at h
    · exact Except.ok.inj h ▸ hc
    · obtain rfl := Except.ok.inj h
      obtain ⟨row, -, -, -, -, claim, -, rfl⟩ := claim_ok hmade
      exact hc.keep rfl rfl rfl
  | issue coordinator capability action operation evidence =>
    obtain ⟨registry, -, h⟩ := bind_ok.mp h
    split at h
    · simp at h
    obtain ⟨⟨result, proven⟩, -, h⟩ := bind_ok.mp h
    obtain ⟨recovery, -, h⟩ := bind_ok.mp h
    obtain ⟨⟨row, claim, supplied⟩, -, h⟩ := bind_ok.mp h
    obtain ⟨-, h⟩ := if_error_ok.mp h
    obtain ⟨-, h⟩ := if_error_ok.mp h
    obtain ⟨retained, -, h⟩ := bind_ok.mp h
    obtain ⟨normalized, -, h⟩ := bind_ok.mp h
    obtain ⟨encoded, -, h⟩ := bind_ok.mp h
    obtain rfl := Except.ok.inj h
    refine Chained.setInstance (hc.keep rfl rfl rfl) fun previous e he => ?_
    exact hc.ready inst hinst previous e he
  | finishReconciliation coordinator capability proof stamp => exact hc.finishReconciliation h
  | log args => exact hc.log hfits h
  | prune => exact Except.ok.inj h ▸ hc.pruneLog
  | fail => simp [World.call] at h

theorem proceed {held : Held} {fails : Bool} (hc : Chained P w)
    (hfits : Fits P w (i, .proceed fails)) (hinst : w.instances[i]? = some inst)
    (hheld : inst.held = some held) : Chained P (w.proceed i inst fails held).2 := by
  cases held with
  | insert previous entry =>
    have hsealed := hc.ready inst (List.mem_of_getElem? hinst) previous entry hheld
    rw [hfits inst previous entry hinst hheld] at hsealed
    rw [World.proceed]
    split
    · exact hc.setInstance fun _ _ h => by simp at h
    · rename_i db hdb
      split at hdb
      · simp at hdb
      · exact (hc.insert hsealed hdb rfl rfl).setInstance fun _ _ h => by simp at h
  | logged => exact hc.noteCommitted fails
  | finished owner =>
    have hk : Chained P { w with owners := w.owners.modify owner (·.retire) } := hc.keep rfl rfl rfl
    exact hk.noteCommitted fails
  | reconciled transactionId capability proof =>
    have hk : Chained P { w with
        recoveries := w.recoveries.modify capability (·.retire)
        proofs := w.proofs.modify proof (·.retire) } := hc.keep rfl rfl rfl
    exact hk.noteCommitted fails

theorem exec {c : Call} {result : Except Raised Unit} (hc : Chained P w)
    (hfits : Fits P w (i, c)) (h : w.exec P i c = some (result, w')) : Chained P w' := by
  rcases exec_cases h with ⟨rfl, rfl, -⟩ | ⟨fails, inst, held, rfl, hinst, hheld, hstep⟩ |
    ⟨inst, hinst, hstep⟩
  · refine hc.same rfl rfl fun inst hinst => ?_
    rcases List.mem_append.mp hinst with hinst | hinst
    · exact hc.ready inst hinst
    · obtain rfl := List.mem_singleton.mp hinst
      exact fun _ _ h => by simp [Instance.new] at h
  · have hproceed := hc.proceed hfits hinst hheld
    rw [hstep] at hproceed
    exact hproceed
  · cases hcall : w.call P i inst c with
    | ok v =>
      rw [hcall] at hstep
      obtain ⟨-, rfl⟩ := Prod.mk.inj hstep
      exact hc.call hfits (List.mem_of_getElem? hinst) hcall
    | error e =>
      rw [hcall] at hstep
      obtain ⟨-, rfl⟩ := Prod.mk.inj hstep
      exact hc

theorem run {labels : List (ℕ × Call)}
    (h : Run (Guarded (Fits P) (World.Step P)) World.start labels w) :
    Chained P w :=
  h.invariant (fun _ _ _ hc ⟨hfits, _, hexec⟩ => hc.exec hfits hexec) start

end Chained

end Runs

/-- CORRECT: after every run in which the records logged and finished have their keys in the order of
    their texts, and no receipt is committed between a `log` call's reading of the head and its
    `INSERT`, every retained receipt matches its stored hash, its record and the receipt before it,
    and `verify_receipt_chain` reports a valid chain exactly when no receipt it looks at records an
    application that was not verified. -/
theorem run_chain {P : Platform} {labels : List (ℕ × Call)} {w : World}
    (h : Run (Guarded (Fits P) (World.Step P)) World.start labels w) (str : Value → Str)
    (limit : ℤ) :
    (∃ previous, ∀ n row, w.db.log[n]? = some row →
      verifyReceipt P row.receipt.loads row.stored (lastHash previous (w.db.log.take n))
          row.receiptHash =
        .ok ⟨!unproven row.outcome row.verified,
          if unproven row.outcome row.verified then
            "an applied action lacks a passed postcondition".toList else "verified".toList,
          row.receiptHash⟩) ∧
      ∃ status, verifyReceiptChain P str limit w.db = .ok status ∧
        (status.valid = true ↔
          ∀ row ∈ w.db.log.take (bounded limit), unproven row.outcome row.verified = false) := by
  obtain ⟨previous, hlinked⟩ := (Chained.run h).linked
  exact ⟨⟨previous, fun n row hrow => (hlinked.row hrow).verifies⟩,
    verifyReceiptChain_linked hlinked str limit⟩

/-! ### Concrete chains -/

/-- The last digit of the `receipt_id` in a text. -/
def receiptNumber : Json → Char
  | .obj members =>
    match members.find? fun m => m.1 = "receipt_id".toList with
    | some (_, .str id) => id.getLastD '0'
    | _ => '0'
  | _ => '0'

/-- The digests and tags of the texts below, under a key of zeros. -/
def ledgerPlatform : Platform where
  repr _ := "0.0".toList
  sha256
    | .obj [] => "44136fa355b3678a1146ad16f7e8649e94fb4fc21fe77e8310c060f61caaff8a".toList
    | .obj [(name, .null), _] =>
      if name = "2".toList then
        "32ce6229c4ffe23c47132793b8af3f92ff2ff0f500470758f51bff15e565ff6c".toList
      else "c7e17e909e96be5714890cfc14fa6c23eb62cee2cf81b588a23dce39cb983cae".toList
    | text =>
      match receiptNumber text with
      | '1' => "d07b321ccb1061c75798527d1864825661408fc897cb6c08bde709d16bcdfdb7".toList
      | '2' => "372dc29552ca9e9c5ed3ae4f09a4dd38565301661bc2f900049626b41a9fe926".toList
      | '3' => "b9a7d222035dfcb98352d1bec675a599c096572155f7bcd2be51668703c2e7c1".toList
      | '5' => "5d24799f0ea72c0ac5fa57dfb7cc830e4c3e55b255366c07c013f6d1e35b4a5e".toList
      | _ => "316850ad01b7fe6b6fba61b3ce21319db4549c5d4e03fb0940f278bf051010b4".toList
  sha256_length text := by split <;> (try split) <;> rfl
  hmac text := match receiptNumber text with
    | '1' => "897772990246adfa4ed666fe85284668f032c3c50d4aa7aa6dbe59d7fd932056".toList
    | '2' => "5a8e8594c3b590c4a5a1048c0dfbc29b973fb45395384eebb58d811214c1c6de".toList
    | '3' => "dcbf392b318a4013dc485e4cd7f99ab95078b4742f58ec996260c0203e41c05c".toList
    | '5' => "03437a2fc614078a573147585541a028fccbd1d9e361dfb3d72f3741f79f2f4c".toList
    | _ => "16b29dace33e0d5b52ae3dcf62d9ca729338e57db422b55dda9b203de749fd5d".toList
  hmac_length text := by split <;> rfl
  storedSha256 _ := genesisHash
  ownerDigest _ := genesisHash
  recoveryDigest _ _ _ := genesisHash

/-- A `log` call of receipt `n`, at the epoch. -/
def logCall (n : Char) (outcome : String) (record : Value) : Call :=
  .log { trigger := "alert".toList, mitre := none, actionKey := "block_ip".toList,
         actionTitle := [], outcome := outcome.toList, verified := -1, hostLevel := false, record,
         stamp := ⟨.finite .zero, List.replicate 31 '0' ++ [n]⟩ }

/-- Two receipts, one after the other, and a pruning. -/
def loggedTwice : List (ℕ × Call) :=
  [(0, .init), (0, logCall '3' "dry_run" .null), (0, .proceed false), (0, .proceed false),
    (0, logCall '5' "dry_run" .null), (0, .proceed false), (0, .proceed false), (0, .prune)]

/-- Whether a call is seen to fit. -/
def fitting (w : World) (label : ℕ × Call) : Bool :=
  match label.2 with
  | .log args => args.record.aligned ledgerPlatform.repr
  | .finish _ _ record _ => record.aligned ledgerPlatform.repr
  | .proceed _ => (w.instances[label.1]?.bind Instance.held).all fun held =>
    match held with
    | .insert previous _ => previous = w.db.receiptHead
    | _ => true
  | _ => true

theorem fits_of_fitting {w : World} {label : ℕ × Call} (h : fitting w label = true) :
    Fits ledgerPlatform w label := by
  obtain ⟨i, c⟩ := label
  cases c with
  | log args => exact h
  | finish owner result record stamp => exact h
  | proceed fails =>
    intro inst previous entry hinst hheld
    simp only [fitting, hinst, Option.bind_some, hheld, Option.all_some] at h
    exact of_decide_eq_true h
  | _ => trivial

/-- Calls that are seen to fit are a run. -/
theorem run_of_fitting {labels : List (ℕ × Call)} {test : World → Bool}
    (h : (labels.foldlM (fun (w : World) label => if fitting w label then
      (w.exec ledgerPlatform label.1 label.2).map Prod.snd else none) World.start).any test = true) :
    ∃ w, Run (Guarded (Fits ledgerPlatform) (World.Step ledgerPlatform)) World.start labels w ∧
      test w = true := by
  obtain ⟨w, hw, htest⟩ := (Option.any_eq_true _ _).mp h
  refine ⟨w, (Run.of_exec hw).mono fun w label w' hstep => ?_, htest⟩
  obtain ⟨hfits, hexec⟩ := Option.ite_none_right_eq_some.mp hstep
  obtain ⟨⟨result, _⟩, hresult, rfl⟩ := Option.map_eq_some_iff.mp hexec
  exact ⟨fits_of_fitting hfits, result, hresult⟩

/-- The second receipt is linked to the first, and the chain is valid. -/
theorem run_chain_logged : ∃ w status, Run (Guarded (Fits ledgerPlatform) (World.Step ledgerPlatform))
      World.start loggedTwice w ∧ w.db.log.length = 2 ∧
    verifyReceiptChain ledgerPlatform (fun _ => []) maxRows w.db = .ok status ∧
    status.valid = true := by
  have hexec : (loggedTwice.foldlM (fun (w : World) label => if fitting w label then
      (w.exec ledgerPlatform label.1 label.2).map Prod.snd else none) World.start).any (fun w =>
        w.db.log.length = 2 ∧ ∀ row ∈ w.db.log, unproven row.outcome row.verified = false) = true := by
    decide +kernel
  obtain ⟨w, hw, htest⟩ := run_of_fitting hexec
  obtain ⟨hlength, hproven⟩ := of_decide_eq_true htest
  obtain ⟨status, hstatus, hvalid⟩ := (run_chain hw (fun _ => []) maxRows).2
  exact ⟨w, status, hw, hlength, hstatus,
    hvalid.mpr fun row hrow => hproven row (List.mem_of_mem_take hrow)⟩

/-- The calls in turn, and what the checker says after them. -/
def checkAfter (labels : List (ℕ × Call)) : Option (Bool × Str) := do
  let w ← labels.foldlM (fun w label => (w.exec ledgerPlatform label.1 label.2).map Prod.snd)
    World.start
  let status ← (verifyReceiptChain ledgerPlatform (fun _ => []) maxRows w.db).toOption
  return (status.valid, status.reason)

/-- An application that nothing verified, a record whose keys sort in another order as texts, and a
    receipt that another instance committed between the reading of the head and the `INSERT` each
    leave a chain that is not valid. -/
theorem chain_breaks :
    checkAfter [(0, .init), (0, logCall '1' "applied" .null), (0, .proceed false)] =
        some (false, "an applied action lacks a passed postcondition".toList) ∧
      checkAfter [(0, .init), (0, logCall '2' "dry_run" (.dict [(.int 2, .null), (.int 10, .null)])),
          (0, .proceed false)] =
        some (false, "action record digest does not match".toList) ∧
      checkAfter [(0, .init), (1, .init), (0, logCall '3' "dry_run" .null),
          (1, logCall '4' "dry_run" .null), (0, .proceed false), (1, .proceed false)] =
        some (false, "receipt chain link is broken".toList) := by
  refine ⟨?_, ?_, ?_⟩
  · decide +kernel
  · decide +kernel
  · decide +kernel

end Angerona.Remediation
