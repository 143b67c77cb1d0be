import Angerona.CaseStore.Custody

/-!
    What a purge removes from a case store, and what it leaves. -/

namespace Angerona.CaseStore
open Text PyJson PyStr Effect

variable {P : Platform} {stamp : Double} {db db' db'' : Db}

/-! ### The evidence of a case -/

/-- What the loop over pieces of evidence leaves. -/
structure Dropped (P : Platform) (stamp : Double) (ids : List Str) (db db' : Db) : Prop where
  chain : ∀ e, db'.chain e = if e ∈ ids then [] else db.chain e
  heads : ∀ e, db'.heads.get? e = if e ∈ ids then none else db.heads.get? e
  receipts : ∀ e, db'.receipts.get? e =
    if e ∈ ids then ((db.heads.get? e).map (receiptOf P stamp e)).or (db.receipts.get? e)
    else db.receipts.get? e
  cases : db'.cases = db.cases
  timeline : db'.timeline = db.timeline
  evidence : db'.evidence = db.evidence
  observables : db'.observables = db.observables

theorem dropped_nil (db : Db) : Dropped P stamp [] db db :=
  ⟨fun _ => rfl, fun _ => rfl, fun _ => rfl, rfl, rfl, rfl, rfl⟩

theorem chain_purgeEvidence (db : Db) (id e : Str) :
    (purgeEvidence P stamp db id).chain e = if e = id then [] else db.chain e := by
  rw [purgeEvidence, Db.chain, Table.delete, List.filter_filter]
  by_cases he : e = id
  · rw [if_pos he, List.filter_eq_nil_iff]
    intro row _ hrow
    simp [he] at hrow
  · rw [if_neg he, Db.chain]
    refine List.filter_congr fun row _ => ?_
    by_cases hrow : row.evidenceId = e
    · simp [hrow, he]
    · simp [hrow]

theorem receipts_purgeEvidence (db : Db) (id e : Str) :
    (purgeEvidence P stamp db id).receipts.get? e =
      if e = id then ((db.heads.get? e).map (receiptOf P stamp e)).or (db.receipts.get? e)
      else db.receipts.get? e := by
  rw [purgeEvidence]
  dsimp only
  rcases hhead : db.heads.get? id with _ | head
  · rw [Option.elim_none]
    by_cases he : e = id
    · rw [if_pos he, he, hhead]
      rfl
    · rw [if_neg he]
  · rw [Option.elim_some, Dict.get?_set]
    by_cases he : e = id
    · rw [if_pos he, if_pos he, he, hhead]
      rfl
    · rw [if_neg he, if_neg he]

theorem Dropped.snoc {ids : List Str} (h : Dropped P stamp ids db db') (id : Str) :
    Dropped P stamp (ids ++ [id]) db (purgeEvidence P stamp db' id) := by
  have hmem : ∀ e, e ∈ ids ++ [id] ↔ e ∈ ids ∨ e = id := by simp
  refine ⟨fun e => ?_, fun e => ?_, fun e => ?_, h.cases, h.timeline, h.evidence, h.observables⟩
  · rw [chain_purgeEvidence, h.chain]
    by_cases he : e = id
    · rw [if_pos he, if_pos ((hmem e).mpr (.inr he))]
    · rw [if_neg he]
      exact if_congr ((hmem e).trans (or_iff_left he)).symm rfl rfl
  · rw [purgeEvidence]
    dsimp only
    rw [Dict.get?_erase, h.heads]
    by_cases he : e = id
    · rw [if_pos he, if_pos ((hmem e).mpr (.inr he))]
    · rw [if_neg he]
      exact if_congr ((hmem e).trans (or_iff_left he)).symm rfl rfl
  · rw [receipts_purgeEvidence, h.heads, h.receipts]
    by_cases he : e = id
    · rw [if_pos he, if_pos ((hmem e).mpr (.inr he))]
      by_cases hin : e ∈ ids
      · rw [if_pos hin, if_pos hin]
        rfl
      · rw [if_neg hin, if_neg hin]
    · rw [if_neg he]
      exact if_congr ((hmem e).trans (or_iff_left he)).symm rfl rfl

theorem dropped_foldl (ids : List Str) (db : Db) :
    Dropped P stamp ids db (ids.foldl (purgeEvidence P stamp) db) := by
  induction ids using List.reverseRecOn with
  | nil => exact dropped_nil db
  | append_singleton ids id ih =>
    rw [List.foldl_append]
    exact ih.snoc id

/-! ### The cases -/

/-- The evidence of the cases `ids`. -/
def Db.gone (db : Db) (ids : List Str) (e : Str) : Prop :=
  ∃ row, db.evidence.get? e = some row ∧ row.caseId ∈ ids

instance (db : Db) (ids : List Str) (e : Str) : Decidable (db.gone ids e) :=
  decidable_of_iff ((db.evidence.get? e).any (fun row => decide (row.caseId ∈ ids)) = true) (by
    rw [Option.any_eq_true_iff_get, Db.gone]
    constructor
    · rintro ⟨h, hrow⟩
      exact ⟨_, (Option.some_get h).symm, of_decide_eq_true hrow⟩
    · rintro ⟨row, hrow, hcase⟩
      exact ⟨by rw [hrow]; rfl, by simpa [hrow] using hcase⟩)

theorem Db.mem_evidenceOf {caseId e : Str} : e ∈ db.evidenceOf caseId ↔ db.gone [caseId] e := by
  rw [Db.evidenceOf, List.mem_map]
  constructor
  · rintro ⟨⟨e', row⟩, hmem, rfl⟩
    rw [List.mem_filter, Dict.mem_items, decide_eq_true_iff] at hmem
    exact ⟨row, hmem.1, List.mem_singleton.mpr hmem.2⟩
  · rintro ⟨row, hrow, hcase⟩
    refine ⟨(e, row), ?_, rfl⟩
    rw [List.mem_filter, Dict.mem_items, decide_eq_true_iff]
    exact ⟨hrow, List.mem_singleton.mp hcase⟩

/-- What a purge of the cases `ids` leaves. -/
structure Swept (P : Platform) (stamp : Double) (ids : List Str) (db db' : Db) : Prop where
  cases : ∀ c, db'.cases.get? c = if c ∈ ids then none else db.cases.get? c
  evidence : ∀ e, db'.evidence.get? e = (db.evidence.get? e).filter fun row => row.caseId ∉ ids
  observables : ∀ o, db'.observables.get? o =
    (db.observables.get? o).filter fun row => row.caseId ∉ ids
  timeline : db'.timeline = db.timeline.filter fun row => row.caseId ∉ ids
  chain : ∀ e, db'.chain e = if db.gone ids e then [] else db.chain e
  heads : ∀ e, db'.heads.get? e = if db.gone ids e then none else db.heads.get? e
  receipts : ∀ e, db'.receipts.get? e =
    if db.gone ids e then ((db.heads.get? e).map (receiptOf P stamp e)).or (db.receipts.get? e)
    else db.receipts.get? e

theorem swept_nil (db : Db) : Swept P stamp [] db db := by
  have hgone : ∀ e, ¬db.gone [] e := by
    rintro e ⟨row, -, hrow⟩
    exact absurd hrow (by simp)
  refine ⟨fun c => rfl, fun e => ?_, fun o => ?_, ?_, fun e => (if_neg (hgone e)).symm,
    fun e => (if_neg (hgone e)).symm, fun e => (if_neg (hgone e)).symm⟩
  · rcases db.evidence.get? e with _ | row <;> simp [Option.filter_some]
  · rcases db.observables.get? o with _ | row <;> simp [Option.filter_some]
  · simp

theorem swept_purgeCase (db : Db) (caseId : Str) :
    Swept P stamp [caseId] db (purgeCase P stamp db caseId) := by
  have h : Dropped P stamp (db.evidenceOf caseId) db
      ((db.evidenceOf caseId).foldl (purgeEvidence P stamp) db) := dropped_foldl _ db
  refine ⟨fun c => ?_, fun e => ?_, fun o => ?_, ?_, fun e => ?_, fun e => ?_, fun e => ?_⟩
  · change (Dict.erase _ caseId).get? c = _
    rw [Dict.get?_erase, h.cases]
    exact if_congr List.mem_singleton.symm rfl rfl
  · change (Dict.keep _ _).get? e = _
    rw [Dict.get?_keep, h.evidence]
    simp
  · change (Dict.keep _ _).get? o = _
    rw [Dict.get?_keep, h.observables]
    simp
  · change Table.delete _ _ = _
    rw [Table.delete, h.timeline]
    simp
  · exact (h.chain e).trans (if_congr Db.mem_evidenceOf rfl rfl)
  · exact (h.heads e).trans (if_congr Db.mem_evidenceOf rfl rfl)
  · exact (h.receipts e).trans (if_congr Db.mem_evidenceOf rfl rfl)

/-- One case after others. -/
theorem Swept.trans {ids : List Str} {caseId : Str} (h : Swept P stamp ids db db')
    (h' : Swept P stamp [caseId] db' db'') : Swept P stamp (ids ++ [caseId]) db db'' := by
  have hmem : ∀ c, c ∈ ids ++ [caseId] ↔ c ∈ ids ∨ c = caseId := by simp
  have hgone : ∀ e, db.gone (ids ++ [caseId]) e ↔ db.gone ids e ∨ db'.gone [caseId] e := by
    intro e
    rw [Db.gone, Db.gone, Db.gone, h.evidence]
    rcases db.evidence.get? e with _ | row
    · simp
    · by_cases hin : row.caseId ∈ ids
      · simp [hin]
      · simp [Option.filter_some, hin]
  have hnew : ∀ e, db'.gone [caseId] e → ¬db.gone ids e := by
    rintro e ⟨row, hrow, -⟩ ⟨row', hrow', hin⟩
    rw [h.evidence, hrow', Option.filter_some_neg (by simpa using hin)] at hrow
    exact absurd hrow (by simp)
  refine ⟨fun c => ?_, fun e => ?_, fun o => ?_, ?_, fun e => ?_, fun e => ?_, fun e => ?_⟩
  · rw [h'.cases, h.cases]
    by_cases hc : c = caseId
    · rw [if_pos (List.mem_singleton.mpr hc), if_pos ((hmem c).mpr (.inr hc))]
    · rw [if_neg fun hn => hc (List.mem_singleton.mp hn)]
      exact if_congr ((hmem c).trans (or_iff_left hc)).symm rfl rfl
  · rw [h'.evidence, h.evidence, Option.filter_filter]
    refine congrArg (Option.filter · _) (funext fun row => ?_)
    simp [Bool.and_comm]
  · rw [h'.observables, h.observables, Option.filter_filter]
    refine congrArg (Option.filter · _) (funext fun row => ?_)
    simp [Bool.and_comm]
  · rw [h'.timeline, h.timeline, List.filter_filter]
    refine congrArg (List.filter · _) (funext fun row => ?_)
    simp [and_comm]
  · rw [h'.chain, h.chain]
    by_cases hg : db'.gone [caseId] e
    · rw [if_pos hg, if_pos ((hgone e).mpr (.inr hg))]
    · rw [if_neg hg]
      exact if_congr ((hgone e).trans (or_iff_left hg)).symm rfl rfl
  · rw [h'.heads, h.heads]
    by_cases hg : db'.gone [caseId] e
    · rw [if_pos hg, if_pos ((hgone e).mpr (.inr hg))]
    · rw [if_neg hg]
      exact if_congr ((hgone e).trans (or_iff_left hg)).symm rfl rfl
  · rw [h'.receipts, h.receipts, h.heads]
    by_cases hg : db'.gone [caseId] e
    · rw [if_pos hg, if_pos ((hgone e).mpr (.inr hg)), if_neg (hnew e hg), if_neg (hnew e hg)]
    · rw [if_neg hg]
      exact if_congr ((hgone e).trans (or_iff_left hg)).symm rfl rfl

theorem swept_foldl (ids : List Str) (db : Db) :
    Swept P stamp ids db (ids.foldl (purgeCase P stamp) db) := by
  induction ids using List.reverseRecOn with
  | nil => exact swept_nil db
  | append_singleton ids caseId ih =>
    rw [List.foldl_append]
    exact ih.trans (swept_purgeCase _ _)

/-! ### Expired cases -/

/-- The case has expired: no legal hold, and a positive retention time before `stamp`. -/
def Db.Expired (db : Db) (stamp : Double) (caseId : Str) : Prop :=
  ∃ row, db.cases.get? caseId = some row ∧ row.expired stamp = true

theorem Db.mem_expiredCases {caseId : Str} :
    caseId ∈ db.expiredCases stamp ↔ db.Expired stamp caseId := by
  rw [Db.expiredCases, List.mem_map]
  constructor
  · rintro ⟨⟨c, row⟩, hmem, rfl⟩
    rw [List.mem_filter, Dict.mem_items] at hmem
    exact ⟨row, hmem.1, hmem.2⟩
  · rintro ⟨row, hrow, hexpired⟩
    exact ⟨(caseId, row), List.mem_filter.mpr ⟨Dict.mem_items.mpr hrow, hexpired⟩, rfl⟩

/-- Nothing expires before the negative zero. -/
theorem stamp_of_expired {row : CaseRow} (h : row.expired stamp = true) :
    stamp ≠ Double.negZero := by
  rintro rfl
  simp only [CaseRow.expired, Bool.and_eq_true, decide_eq_true_eq] at h
  have hpositive : Double.zero.val < row.retentionUntil.val := h.1.2
  exact absurd (Int.lt_trans hpositive h.2) (by decide)

/-- Every receipt verifies. -/
def Db.Receipted (P : Platform) (db : Db) : Prop :=
  ∀ e r, db.receipts.get? e = some r →
    r.hmac = P.mac (receiptBody e r.eventCount r.finalHash r.purgedAt)

theorem Swept.receipted {ids : List Str} (h : Swept P stamp ids db db') (hr : db.Receipted P)
    (hstamp : ids ≠ [] → stamp ≠ Double.negZero) : db'.Receipted P := by
  intro e r hget
  rw [h.receipts] at hget
  split at hget
  · rename_i hgone
    obtain ⟨row, -, hin⟩ := hgone
    rcases hhead : db.heads.get? e with _ | head
    · rw [hhead] at hget
      exact hr e r hget
    · rw [hhead] at hget
      obtain rfl := Option.some.inj hget
      rw [receiptOf, Double.stored_eq (hstamp (List.ne_nil_of_mem hin))]
  · exact hr e r hget

theorem Swept.holds {ids : List Str} (h : Swept P stamp ids db db') {e : Str}
    {events : List CustodyEvent} (he : Holds P db e events) : Holds P db' e events := by
  by_cases hg : db.gone ids e
  · obtain ⟨row, hrow, hin⟩ := id hg
    have hnone : db'.evidence.get? e = none := by
      rw [h.evidence, hrow, Option.filter_some_neg (by simpa using hin)]
    refine ⟨fun hs => absurd hs (by rw [hnone]; simp), fun _ => ⟨?_, ?_⟩⟩
    · rw [h.chain, if_pos hg]
    · rw [h.heads, if_pos hg]
  · refine he.congr ?_ ?_ ?_
    · rw [h.chain, if_neg hg]
    · rw [h.heads, if_neg hg]
    · rw [h.evidence]
      rcases hrow : db.evidence.get? e with _ | row
      · rfl
      · rw [Option.filter_some_pos]
        simpa using fun hin => hg ⟨row, hrow, hin⟩

/-- A purge never raises. -/
theorem wp_purgeExpired (amb : Ambient) (now : Option Double) :
    wp (purgeExpired P amb now)
      (fun n t => n = (db.expiredCases (now.getD amb.clock)).length ∧
        Swept P (now.getD amb.clock) (db.expiredCases (now.getD amb.clock)) db t)
      (fun _ _ => False) db := by
  rw [purgeExpired, wp_atomic, wp_bind, wp_read, wp_bind, wp_modify, wp_pure]
  exact ⟨rfl, swept_foldl _ db⟩

end Angerona.CaseStore
