import Angerona.CaseStore.Model

/-!
    The custody chains of a case store.

    A piece of evidence in the store has a chain that verifies, and one that is not has neither
    chain nor head. A chain grows by the events that were accepted; a time comes back from its
    column as it was hashed unless it is the negative zero. -/

namespace Angerona.CaseStore
open Text PyJson PyStr Effect

variable {P : Platform} {db db' : Db} {id : Str}

/-! ### One chain -/

/-- What a custody row records. -/
structure CustodyEvent where
  action : Str
  actor : Str
  ts : Double

def CustodyRow.event (row : CustodyRow) : CustodyEvent := ⟨row.action, row.actor, row.ts⟩

/-- The hash that the rows of a chain leave. -/
def chainTip (rows : List CustodyRow) : Str := HashChain.tip CustodyRow.eventHash genesisHash rows

/-- The head of a chain. -/
def sealedHead (P : Platform) (id : Str) (rows : List CustodyRow) : Head :=
  ⟨rows.length, chainTip rows, P.mac (headBody id rows.length (chainTip rows))⟩

/-- A chain that verifies and lists the events. -/
structure InCustody (P : Platform) (db : Db) (id : Str) (events : List CustodyEvent) : Prop where
  linked : HashChain.Linked (CustodyRow.Right P id) CustodyRow.previousHash CustodyRow.eventHash
    genesisHash (db.chain id) (chainTip (db.chain id))
  head : db.heads.get? id = some (sealedHead P id (db.chain id))
  nonempty : db.chain id ≠ []
  events : (db.chain id).map CustodyRow.event = events

/-- No chain, and no head. -/
structure Unkept (db : Db) (id : Str) : Prop where
  chain : db.chain id = []
  head : db.heads.get? id = none

/-- What the store has of a piece of evidence, given its events. -/
def Holds (P : Platform) (db : Db) (id : Str) (events : List CustodyEvent) : Prop :=
  ((db.evidence.get? id).isSome = true → InCustody P db id events) ∧
    (db.evidence.get? id = none → Unkept db id)

theorem InCustody.verifies {events : List CustodyEvent} (h : InCustody P db id events) :
    verifyChain P id db = true := by
  have hwalk := HashChain.walk_eq_some.mpr h.linked
  rw [verifyChain, h.head]
  dsimp only
  rw [hwalk]
  simp [sealedHead, h.nonempty]

theorem Unkept.not_verifies (h : Unkept db id) : verifyChain P id db = false := by
  rw [verifyChain, h.head]

/-- Exactly the evidence that is there verifies. -/
theorem Holds.verifies_iff {events : List CustodyEvent} (h : Holds P db id events) :
    verifyChain P id db = true ↔ (db.evidence.get? id).isSome = true := by
  constructor
  · intro hv
    by_contra hn
    rw [Option.not_isSome_iff_eq_none] at hn
    rw [(h.2 hn).not_verifies] at hv
    exact absurd hv (by simp)
  · exact fun hs => (h.1 hs).verifies

/-- Only the chain, the head and the evidence matter. -/
theorem Holds.congr {events : List CustodyEvent} (h : Holds P db id events)
    (hchain : db'.chain id = db.chain id) (hhead : db'.heads.get? id = db.heads.get? id)
    (hevidence : (db'.evidence.get? id).isSome = (db.evidence.get? id).isSome) :
    Holds P db' id events := by
  refine ⟨fun hs => ?_, fun hn => ?_⟩
  · have hin := h.1 (hevidence ▸ hs)
    exact ⟨by rw [hchain]; exact hin.linked, by rw [hhead, hchain]; exact hin.head,
      by rw [hchain]; exact hin.nonempty, by rw [hchain]; exact hin.events⟩
  · have hnone : db.evidence.get? id = none := by
      rw [← Option.not_isSome_iff_eq_none, ← hevidence, hn]
      simp
    have hout := h.2 hnone
    exact ⟨hchain.trans hout.chain, hhead.trans hout.head⟩

/-! ### A new event -/

/-- The row of a new event. -/
def custodyRow (P : Platform) (db : Db) (id action actor : Str) (stamp : Double) : CustodyRow :=
  let previousHash := chainTip (db.chain id)
  let eventHash := P.sha256 (eventBody id action actor stamp previousHash)
  ⟨id, action, actor, stamp.stored, previousHash, eventHash, P.sign eventHash⟩

/-- The store with a new event. -/
def Db.appended (P : Platform) (db : Db) (id action actor : Str) (stamp : Double) : Db :=
  let row := custodyRow P db id action actor stamp
  { db with
    custody := db.custody ++ [row]
    heads := db.heads.set id (sealedHead P id (db.chain id ++ [row])) }

theorem chain_appended (P : Platform) (db : Db) (id action actor : Str) (stamp : Double) (i : Str) :
    (db.appended P id action actor stamp).chain i =
      if i = id then db.chain i ++ [custodyRow P db id action actor stamp] else db.chain i := by
  rw [Db.chain, Db.appended, List.filter_append]
  by_cases hi : i = id
  · subst hi
    rw [if_pos rfl]
    simp [Db.chain, custodyRow]
  · rw [if_neg hi]
    simp [Db.chain, custodyRow, Ne.symm hi]

/-- A new event of evidence that is there. -/
theorem InCustody.appended {events : List CustodyEvent} (action actor : Str) {stamp : Double}
    (hstamp : stamp ≠ Double.negZero)
    (hlinked : HashChain.Linked (CustodyRow.Right P id) CustodyRow.previousHash
      CustodyRow.eventHash genesisHash (db.chain id) (chainTip (db.chain id)))
    (hevents : (db.chain id).map CustodyRow.event = events) :
    InCustody P (db.appended P id action actor stamp) id (events ++ [⟨action, actor, stamp⟩]) := by
  have hchain := chain_appended P db id action actor stamp id
  rw [if_pos rfl] at hchain
  refine ⟨?_, ?_, by rw [hchain]; simp, ?_⟩
  · rw [hchain, chainTip, HashChain.tip_snoc]
    refine HashChain.linked_snoc.mpr ⟨hlinked, ⟨?_, rfl⟩, rfl⟩
    change P.sha256 _ = P.sha256 (eventBody id action actor stamp.stored _)
    rw [Double.stored_eq hstamp]
    rfl
  · rw [hchain]
    exact (Dict.get?_set _ _ _ _).trans (if_pos rfl)
  · rw [hchain, List.map_append, hevents]
    refine congrArg _ ?_
    rw [List.map_singleton, CustodyRow.event, custodyRow]
    simp [Double.stored_eq hstamp]

theorem heads_appended (P : Platform) (db : Db) (id action actor : Str) (stamp : Double) {i : Str}
    (hi : i ≠ id) : (db.appended P id action actor stamp).heads.get? i = db.heads.get? i :=
  (Dict.get?_set _ _ _ _).trans (if_neg hi)

theorem wp_text {s : PyStr} {Q : Str → Db → Prop} {E : Raised → Db → Prop} :
    wp (text s) Q E db ↔ (∀ t, encode s = some t → Q t db) ∧ (encode s = none → E .encode db) :=
  wp_demand

/-- An event is appended when its texts are encoded. -/
theorem wp_appendCustody (action actor : PyStr) (stamp : Double) {Q : Unit → Db → Prop}
    {E : Raised → Db → Prop}
    (hQ : ∀ a b, encode action = some a → encode actor = some b →
      Q () (db.appended P id a b stamp)) (hE : E .encode db) :
    wp (appendCustody P id action actor stamp) Q E db := by
  rw [appendCustody, wp_bind, wp_read, wp_bind, wp_text]
  refine ⟨fun a ha => ?_, fun _ => hE⟩
  rw [wp_bind, wp_text]
  refine ⟨fun b hb => ?_, fun _ => hE⟩
  rw [wp_bind, wp_modify, wp_bind, wp_read, wp_modify]
  have hend := hQ a b ha hb
  have hchain := chain_appended P db id a b stamp id
  rw [if_pos rfl] at hchain
  have hhead : sealedHead P id (db.chain id ++ [custodyRow P db id a b stamp]) =
      ⟨((db.appended P id a b stamp).chain id).length, (custodyRow P db id a b stamp).eventHash,
        P.mac (headBody id ((db.appended P id a b stamp).chain id).length
          (custodyRow P db id a b stamp).eventHash)⟩ := by
    rw [hchain, sealedHead, chainTip, HashChain.tip_snoc]
  rw [Db.appended, hhead] at hend
  exact hend

/-! ### Calls that append -/

/-- The piece of evidence that a call adds. -/
theorem wp_insertEvidence (caseId evidenceId : Str) (reference : Reference)
    {Q : Unit → Db → Prop} {E : Raised → Db → Prop}
    (hQ : ∀ row : EvidenceRow, db.evidence.get? evidenceId = none →
      Q () { db with evidence := db.evidence.set evidenceId row }) (hE : ∀ e, E e db) :
    wp (insertEvidence P caseId evidenceId reference) Q E db := by
  rw [insertEvidence, wp_bind, wp_demand]
  refine ⟨fun displayName _ => ?_, fun _ => hE _⟩
  rw [wp_bind, wp_text]
  refine ⟨fun displayName _ => ?_, fun _ => hE _⟩
  rw [wp_bind, wp_text]
  refine ⟨fun sha256 _ => ?_, fun _ => hE _⟩
  rw [wp_bind, wp_check]
  refine ⟨fun _ => ?_, fun _ => hE _⟩
  rw [wp_bind, wp_text]
  refine ⟨fun source _ => ?_, fun _ => hE _⟩
  rw [wp_bind, wp_text]
  refine ⟨fun provenance _ => ?_, fun _ => hE _⟩
  rw [wp_bind, wp_text]
  refine ⟨fun privacyClass _ => ?_, fun _ => hE _⟩
  rw [wp_bind, wp_read, wp_bind, wp_check]
  refine ⟨fun hnone => ?_, fun _ => hE _⟩
  exact hQ _ (Option.isNone_iff_eq_none.mp hnone)

/-- The store after `add_evidence`. -/
def Db.collected (P : Platform) (db : Db) (id : Str) (row : EvidenceRow) (actor : Str)
    (stamp : Double) : Db :=
  Db.appended P { db with evidence := db.evidence.set id row } id "collected".toList actor stamp

theorem wp_addEvidence (amb : Ambient) (caseId : PyStr) (reference : Reference) (actor : PyStr)
    (now : Option Double) :
    wp (addEvidence P amb caseId reference actor now)
      (fun _ t => ∃ id row a, encode reference.evidenceId = some id ∧ encode actor = some a ∧
        db.evidence.get? id = none ∧ t = db.collected P id row a (now.getD amb.clock))
      (fun _ t => t = db) db := by
  rw [addEvidence, wp_bind, wp_check]
  refine ⟨fun _ => ?_, fun _ => rfl⟩
  rw [wp_bind, wp_check]
  refine ⟨fun _ => ?_, fun _ => rfl⟩
  rw [wp_bind, wp_check]
  refine ⟨fun _ => ?_, fun _ => rfl⟩
  rw [wp_bind, wp_text]
  refine ⟨fun _ _ => ?_, fun _ => rfl⟩
  rw [wp_bind, wp_read, wp_bind, wp_check]
  refine ⟨fun _ => ?_, fun _ => rfl⟩
  rw [wp_bind, wp_check]
  refine ⟨fun _ => ?_, fun _ => rfl⟩
  rw [wp_atomic, wp_bind, wp_text]
  refine ⟨fun id hid => ?_, fun _ => rfl⟩
  rw [wp_bind]
  refine wp_insertEvidence _ _ _ (fun row hnone => ?_) fun _ => rfl
  refine wp_appendCustody _ _ _ (fun a b ha hb => ?_) rfl
  obtain rfl := Option.some.inj ((encode_ofStr _).symm.trans ha)
  exact ⟨id, row, b, hid, hb, hnone, rfl⟩

theorem wp_transferCustody (amb : Ambient) (evidenceId action actor : PyStr)
    (now : Option Double) :
    wp (transferCustody P amb evidenceId action actor now)
      (fun _ t => ∃ id a b, encode evidenceId = some id ∧ encode (safeText action 200) = some a ∧
        encode actor = some b ∧ (db.evidence.get? id).isSome = true ∧
        t = db.appended P id a b (now.getD amb.clock))
      (fun _ t => t = db) db := by
  rw [transferCustody, wp_bind, wp_check]
  refine ⟨fun _ => ?_, fun _ => rfl⟩
  rw [wp_atomic, wp_bind, wp_text]
  refine ⟨fun id hid => ?_, fun _ => rfl⟩
  rw [wp_bind, wp_read, wp_bind, wp_check]
  refine ⟨fun hthere => ?_, fun _ => rfl⟩
  exact wp_appendCustody _ _ _ (fun a b ha hb => ⟨id, a, b, hid, ha, hb, hthere, rfl⟩) rfl

/-! ### Calls that leave the evidence alone -/

/-- The tables of the evidence are the same. -/
structure Alike (db db' : Db) : Prop where
  evidence : db'.evidence = db.evidence
  custody : db'.custody = db.custody
  heads : db'.heads = db.heads
  receipts : db'.receipts = db.receipts

theorem Alike.refl (db : Db) : Alike db db := ⟨rfl, rfl, rfl, rfl⟩

theorem wp_getCase {caseId : PyStr} {Q : CaseRecord → Db → Prop} {E : Raised → Db → Prop}
    (hQ : ∀ r, (∃ id row, encode caseId = some id ∧ db.cases.get? id = some row) → Q r db)
    (hE : ∀ e, (¬∃ id row, encode caseId = some id ∧ db.cases.get? id = some row) → E e db) :
    wp (getCase caseId) Q E db := by
  rw [getCase, wp_bind, wp_text]
  refine ⟨fun id hid => ?_, fun hn => hE _ ?_⟩
  · rw [wp_bind, wp_read, wp_bind, wp_demand]
    refine ⟨fun row hrow => hQ _ ⟨id, row, hid, hrow⟩, fun hnone => hE _ ?_⟩
    rintro ⟨id', row, hid', hrow⟩
    obtain rfl := Option.some.inj (hid.symm.trans hid')
    exact absurd (hnone.symm.trans hrow) (by simp)
  · rintro ⟨id, row, hid, -⟩
    exact absurd (hn.symm.trans hid) (by simp)

/-- A call that leaves the evidence alone, or raises and changes nothing. -/
abbrev Gentle {α : Type} (m : Deed α) : Prop :=
  ∀ db, wp m (fun _ t => Alike db t) (fun _ t => t = db) db

theorem gentle_createCase (amb : Ambient) (a : NewCase) : Gentle (createCase amb a) := by
  intro db
  rw [createCase, wp_bind, wp_check]
  refine ⟨fun _ => ?_, fun _ => rfl⟩
  rw [wp_bind, wp_check]
  refine ⟨fun _ => ?_, fun _ => rfl⟩
  rw [wp_bind, wp_atomic, insertCase, wp_bind, wp_text]
  refine ⟨fun id hid => ?_, fun _ => rfl⟩
  rw [wp_bind, wp_text]
  refine ⟨fun title _ => ?_, fun _ => rfl⟩
  rw [wp_bind, wp_text]
  refine ⟨fun assignee _ => ?_, fun _ => rfl⟩
  rw [wp_bind, wp_read, wp_bind, wp_check]
  refine ⟨fun _ => ?_, fun _ => rfl⟩
  -- the case is there, so that reading it back does not raise
  refine wp_getCase (fun r _ => ⟨rfl, rfl, rfl, rfl⟩) fun e hn => ?_
  exact absurd ⟨id, _, hid, (Dict.get?_set _ _ _ _).trans (if_pos rfl)⟩ hn

theorem gentle_updateCase (amb : Ambient) (caseId : PyStr) (expectedVersion : ℤ)
    (c : CaseChange) : Gentle (updateCase amb caseId expectedVersion c) := by
  intro db
  rw [updateCase, wp_bind]
  refine wp_getCase (fun current _ => ?_) fun _ _ => rfl
  rw [wp_bind, wp_check]
  refine ⟨fun _ => ?_, fun _ => rfl⟩
  rw [wp_bind, wp_check]
  refine ⟨fun _ => ?_, fun _ => rfl⟩
  rw [wp_bind, wp_atomic, updateRow, wp_bind, wp_text]
  refine ⟨fun status _ => ?_, fun _ => rfl⟩
  rw [wp_bind, wp_text]
  refine ⟨fun assignee _ => ?_, fun _ => rfl⟩
  rw [wp_bind, wp_text]
  refine ⟨fun id hid => ?_, fun _ => rfl⟩
  rw [wp_bind, wp_check]
  refine ⟨fun _ => ?_, fun _ => rfl⟩
  rw [wp_bind, wp_read, wp_bind, wp_demand]
  refine ⟨fun row _ => ?_, fun _ => rfl⟩
  refine wp_getCase (fun r _ => ⟨rfl, rfl, rfl, rfl⟩) fun e hn => ?_
  exact absurd ⟨id, _, hid, (Dict.get?_set _ _ _ _).trans (if_pos rfl)⟩ hn

theorem gentle_addComment (amb : Ambient) (caseId actor body : PyStr) (now : Option Double) :
    Gentle (addComment amb caseId actor body now) := by
  intro db
  rw [addComment, wp_bind, wp_check]
  refine ⟨fun _ => ?_, fun _ => rfl⟩
  rw [wp_bind, wp_check]
  refine ⟨fun _ => ?_, fun _ => rfl⟩
  rw [wp_bind, wp_text]
  refine ⟨fun id _ => ?_, fun _ => rfl⟩
  rw [wp_bind, wp_read, wp_bind, wp_check]
  refine ⟨fun _ => ?_, fun _ => rfl⟩
  rw [wp_bind, wp_check]
  refine ⟨fun _ => ?_, fun _ => rfl⟩
  rw [wp_bind, wp_text]
  refine ⟨fun actor _ => ?_, fun _ => rfl⟩
  rw [wp_bind, wp_text]
  refine ⟨fun body _ => ?_, fun _ => rfl⟩
  exact ⟨rfl, rfl, rfl, rfl⟩

theorem observableValid_iff {row : ObservableRow} : observableValid P id row = true ↔
    ∃ raw normalized n, P.normalize (ofStr row.kind) (ofStr row.rawValue) = some (raw, normalized) ∧
      encode normalized = some n ∧ raw = ofStr row.rawValue ∧
      ofStr row.status ∈ observableStatuses ∧ Double.zero ≤ row.confidence ∧
      row.confidence ≤ Double.ofNat 1 Double.one_fits ∧
      row.similarityHmac = observableDigest P row.kind n ∧
      row.recordHmac = P.recordMac (observableBody id row) := by
  rw [observableValid]
  rcases P.normalize (ofStr row.kind) (ofStr row.rawValue) with _ | ⟨raw, normalized⟩
  · simp
  · dsimp only
    rcases hn : encode normalized with _ | n
    · simp [hn]
    · simp [hn, and_assoc]

theorem gentle_reviewObservable (observableId status : PyStr) (excluded : Option Bool) :
    Gentle (reviewObservable P observableId status excluded) := by
  intro db
  rw [reviewObservable, wp_bind, wp_check]
  refine ⟨fun hstatus => ?_, fun _ => rfl⟩
  rw [wp_bind, wp_check]
  refine ⟨fun _ => ?_, fun _ => rfl⟩
  rw [wp_bind, reviewRow, wp_atomic, wp_bind, wp_text]
  refine ⟨fun id hid => ?_, fun _ => rfl⟩
  rw [wp_bind, wp_read, wp_bind, wp_demand]
  refine ⟨fun row hrow => ?_, fun _ => rfl⟩
  rw [wp_bind, wp_check]
  refine ⟨fun hvalid => ?_, fun _ => rfl⟩
  rw [wp_bind, wp_text]
  refine ⟨fun text htext => ?_, fun _ => rfl⟩
  rw [wp_bind, wp_modify, wp_pure, observableRecord, wp_bind, wp_check]
  -- the row is still valid under its new status and signature
  refine ⟨fun _ => ⟨rfl, rfl, rfl, rfl⟩, fun hn => absurd ?_ hn⟩
  obtain ⟨raw, normalized, n, hnorm, henc, hraw, -, hzero, hone, hsim, -⟩ :=
    observableValid_iff.mp hvalid
  rw [encode_eq_some.mp htext] at hstatus
  exact observableValid_iff.mpr
    ⟨raw, normalized, n, hnorm, henc, hraw, hstatus, hzero, hone, hsim, rfl⟩

end Angerona.CaseStore
