import Angerona.CaseStore.Purge
import Angerona.Lib.Transition

/-!
    Runs of a case store.

    While no accepted custody event has the negative zero as its time, exactly the evidence in the
    store verifies, and its chain lists the events that were accepted since it was added. A purge
    removes the expired cases with all that is theirs, and what raises changes nothing. -/

namespace Angerona.CaseStore
open Text PyJson PyStr Effect Transition

variable {P : Platform} {db db' : Db}

/-! ### One call -/

theorem wp_addObservable (amb : Ambient) (caseId : PyStr) (a : NewObservable) :
    wp (addObservable P amb caseId a) (fun _ t => Alike db t) (fun _ t => Alike db t) db := by
  rw [addObservable, wp_bind, wp_demand]
  refine ⟨fun both _ => ?_, fun _ => Alike.refl db⟩
  rw [wp_bind, wp_check]
  refine ⟨fun _ => ?_, fun _ => Alike.refl db⟩
  rw [wp_bind, wp_check]
  refine ⟨fun _ => ?_, fun _ => Alike.refl db⟩
  rw [wp_bind, wp_check]
  refine ⟨fun _ => ?_, fun _ => Alike.refl db⟩
  rw [wp_bind, wp_check]
  refine ⟨fun _ => ?_, fun _ => Alike.refl db⟩
  rw [wp_bind, wp_text]
  refine ⟨fun id _ => ?_, fun _ => Alike.refl db⟩
  have hrow : wp (newRow P amb caseId id a both.1 both.2 (stripBy isSpace (safeText a.source 300)))
      (fun _ t => t = db) (fun _ t => t = db) db := by
    simp [newRow, text, wp_demand]
  rw [wp_bind]
  refine wp_mono hrow ?_ ?_
  · rintro row t rfl
    have hinsert : wp (insertObservable caseId id row) (fun _ t' => Alike t t')
        (fun _ t' => Alike t t') t := by
      rw [insertObservable, wp_atomic, wp_bind, wp_read, wp_bind, wp_check]
      refine ⟨fun _ => ?_, fun _ => Alike.refl t⟩
      rw [wp_bind, wp_check]
      refine ⟨fun _ => ?_, fun _ => Alike.refl t⟩
      rw [wp_bind, wp_modify, wp_bind, wp_read, wp_pure]
      split
      · exact Alike.refl t
      · exact ⟨rfl, rfl, rfl, rfl⟩
    rw [wp_bind]
    refine wp_mono hinsert (fun found t' halike => ?_) fun _ _ h => h
    rw [wp_bind, wp_demand]
    refine ⟨fun there _ => ?_, fun _ => halike⟩
    rw [observableRecord, wp_bind, wp_check]
    exact ⟨fun _ => halike, fun _ => halike⟩
  · rintro e t rfl
    exact Alike.refl t

/-- The seven calls that custody rests on. -/
def Call.Listed : Call → Prop
  | .addObservable _ _ => False
  | _ => True

/-- A call that raises changes no table. -/
theorem wp_raises (amb : Ambient) {c : Call} (hc : c.Listed) :
    wp (c.run P amb) (fun _ _ => True) (fun _ t => t = db) db := by
  have hgentle : ∀ {α : Type} {m : Deed α} (f : α → Reply), Gentle m →
      wp (m >>= fun r => pure (f r)) (fun _ _ => True) (fun _ t => t = db) db := by
    intro α m f hm
    rw [wp_bind]
    exact wp_mono (hm db) (fun _ _ _ => trivial) fun _ _ h => h
  cases c with
  | createCase a => exact hgentle _ (gentle_createCase amb a)
  | updateCase caseId version c => exact hgentle _ (gentle_updateCase amb caseId version c)
  | addComment caseId actor body now => exact hgentle _ (gentle_addComment amb caseId actor body now)
  | addEvidence caseId reference actor now =>
    rw [Call.run, wp_bind]
    exact wp_mono (wp_addEvidence amb caseId reference actor now) (fun _ _ _ => trivial)
      fun _ _ h => h
  | transferCustody evidenceId action actor now =>
    rw [Call.run, wp_bind]
    exact wp_mono (wp_transferCustody amb evidenceId action actor now) (fun _ _ _ => trivial)
      fun _ _ h => h
  | reviewObservable observableId status excluded =>
    exact hgentle _ (gentle_reviewObservable observableId status excluded)
  | purgeExpired now =>
    rw [Call.run, wp_bind]
    exact wp_mono (wp_purgeExpired amb now) (fun _ _ _ => trivial) fun _ _ h => h.elim
  | addObservable caseId a => exact hc.elim

/-! ### The events that were accepted -/

/-- What one call adds to the events of the evidence. -/
def Entry.record (events : Str → List CustodyEvent) (e : Entry) : Str → List CustodyEvent :=
  match e.outcome, e.call with
  | .ok _, .addEvidence _ reference actor now =>
    ((encode reference.evidenceId).bind fun id => (encode actor).map fun actor =>
      Function.update events id [⟨"collected".toList, actor, now.getD e.amb.clock⟩]).getD events
  | .ok _, .transferCustody evidenceId action actor now =>
    ((encode evidenceId).bind fun id => (encode (safeText action 200)).bind fun action =>
      (encode actor).map fun actor =>
        Function.update events id (events id ++ [⟨action, actor, now.getD e.amb.clock⟩])).getD events
  | _, _ => events

/-- The accepted events of each piece of evidence since it was last added. -/
def recorded (entries : List Entry) : Str → List CustodyEvent :=
  entries.foldl Entry.record fun _ => []

/-- The time of the custody event of a call, if it is of one. -/
def Call.stamp (amb : Ambient) : Call → Option Double
  | .addEvidence _ _ _ now => some (now.getD amb.clock)
  | .transferCustody _ _ _ now => some (now.getD amb.clock)
  | _ => none

/-- An accepted custody event is not at the negative zero. -/
def Entry.Timed (e : Entry) : Prop :=
  e.outcome.toOption.isSome = true → e.call.stamp e.amb ≠ some Double.negZero

/-- What holds of the evidence along a run. -/
structure Kept (P : Platform) (events : Str → List CustodyEvent) (db : Db) : Prop where
  holds : ∀ id, Holds P db id (events id)
  receipted : db.Receipted P

theorem Kept.alike {events : Str → List CustodyEvent} (h : Kept P events db)
    (ha : Alike db db') : Kept P events db' := by
  refine ⟨fun id => (h.holds id).congr ?_ ?_ ?_, fun e r hr => h.receipted e r (ha.receipts ▸ hr)⟩
  · rw [Db.chain, Db.chain, ha.custody]
  · rw [ha.heads]
  · rw [ha.evidence]

theorem Kept.collected {events : Str → List CustodyEvent} (h : Kept P events db) {id : Str}
    (hnone : db.evidence.get? id = none) (row : EvidenceRow) (actor : Str) {stamp : Double}
    (hstamp : stamp ≠ Double.negZero) :
    Kept P (Function.update events id [⟨"collected".toList, actor, stamp⟩])
      (db.collected P id row actor stamp) := by
  have hout := (h.holds id).2 hnone
  refine ⟨fun i => ?_, h.receipted⟩
  by_cases hi : i = id
  · subst hi
    rw [Function.update_self]
    have hin : InCustody P (db.collected P i row actor stamp) i
        ([] ++ [⟨"collected".toList, actor, stamp⟩]) := by
      refine @InCustody.appended _ { db with evidence := db.evidence.set i row } _ _ _ _ _ hstamp
        ?_ ?_
      · change HashChain.Linked _ _ _ _ (db.chain i) (chainTip (db.chain i))
        rw [hout.chain]
        rfl
      · change (db.chain i).map _ = []
        rw [hout.chain]
        rfl
    refine ⟨fun _ => hin, fun hn => ?_⟩
    have hget : (db.evidence.set i row).get? i = none := hn
    rw [Dict.get?_set, if_pos rfl] at hget
    exact absurd hget (by simp)
  · rw [Function.update_of_ne hi]
    refine (h.holds i).congr ?_ (heads_appended _ _ _ _ _ _ hi) ?_
    · exact (chain_appended _ _ _ _ _ _ i).trans (if_neg hi)
    · change ((db.evidence.set id row).get? i).isSome = _
      rw [Dict.get?_set, if_neg hi]

theorem Kept.appended {events : Str → List CustodyEvent} (h : Kept P events db) {id : Str}
    (hthere : (db.evidence.get? id).isSome = true) (action actor : Str) {stamp : Double}
    (hstamp : stamp ≠ Double.negZero) :
    Kept P (Function.update events id (events id ++ [⟨action, actor, stamp⟩]))
      (db.appended P id action actor stamp) := by
  have hin := (h.holds id).1 hthere
  refine ⟨fun i => ?_, h.receipted⟩
  by_cases hi : i = id
  · subst hi
    rw [Function.update_self]
    refine ⟨fun _ => InCustody.appended action actor hstamp hin.linked hin.events, fun hn => ?_⟩
    have hget : db.evidence.get? i = none := hn
    rw [hget] at hthere
    exact absurd hthere (by simp)
  · rw [Function.update_of_ne hi]
    refine (h.holds i).congr ?_ (heads_appended _ _ _ _ _ _ hi) rfl
    exact (chain_appended _ _ _ _ _ _ i).trans (if_neg hi)

theorem Kept.purged {events : Str → List CustodyEvent} {stamp : Double} (h : Kept P events db)
    (hswept : Swept P stamp (db.expiredCases stamp) db db') : Kept P events db' := by
  refine ⟨fun id => hswept.holds (h.holds id), hswept.receipted h.receipted fun hne => ?_⟩
  obtain ⟨c, hc⟩ := List.exists_mem_of_ne_nil _ hne
  obtain ⟨row, -, hexpired⟩ := Db.mem_expiredCases.mp hc
  exact stamp_of_expired hexpired

/-- What every call keeps. -/
theorem wp_kept {events : Str → List CustodyEvent} (h : Kept P events db) (amb : Ambient)
    (c : Call) :
    wp (c.run P amb)
      (fun r t => Entry.Timed ⟨amb, c, .ok r⟩ → Kept P (Entry.record events ⟨amb, c, .ok r⟩) t)
      (fun _ t => Kept P events t) db := by
  cases c with
  | createCase a =>
    rw [Call.run, wp_bind]
    refine wp_mono (gentle_createCase amb a db) (fun _ _ ha _ => h.alike ha) ?_
    rintro _ t rfl
    exact h
  | updateCase caseId version c =>
    rw [Call.run, wp_bind]
    refine wp_mono (gentle_updateCase amb caseId version c db) (fun _ _ ha _ => h.alike ha) ?_
    rintro _ t rfl
    exact h
  | addComment caseId actor body now =>
    rw [Call.run, wp_bind]
    refine wp_mono (gentle_addComment amb caseId actor body now db) (fun _ _ ha _ => h.alike ha) ?_
    rintro _ t rfl
    exact h
  | reviewObservable observableId status excluded =>
    rw [Call.run, wp_bind]
    refine wp_mono (gentle_reviewObservable observableId status excluded db)
      (fun _ _ ha _ => h.alike ha) ?_
    rintro _ t rfl
    exact h
  | addObservable caseId a =>
    rw [Call.run, wp_bind]
    exact wp_mono (wp_addObservable amb caseId a) (fun _ _ ha _ => h.alike ha)
      fun _ _ ha => h.alike ha
  | purgeExpired now =>
    rw [Call.run, wp_bind]
    exact wp_mono (wp_purgeExpired amb now) (fun _ _ hswept _ => h.purged hswept.2)
      fun _ _ hf => hf.elim
  | addEvidence caseId reference actor now =>
    rw [Call.run, wp_bind]
    refine wp_mono (wp_addEvidence amb caseId reference actor now) ?_ ?_
    · rintro _ t ⟨id, row, a, hid, ha, hnone, rfl⟩ htimed
      rw [Entry.record]
      dsimp only
      rw [hid, ha]
      exact h.collected hnone row a fun he => htimed rfl (congrArg some he)
    · rintro _ t rfl
      exact h
  | transferCustody evidenceId action actor now =>
    rw [Call.run, wp_bind]
    refine wp_mono (wp_transferCustody amb evidenceId action actor now) ?_ ?_
    · rintro _ t ⟨id, a, b, hid, ha, hb, hthere, rfl⟩ htimed
      rw [Entry.record]
      dsimp only
      rw [hid, Option.bind_some, ha, Option.bind_some, hb]
      exact h.appended hthere a b fun he => htimed rfl (congrArg some he)
    · rintro _ t rfl
      exact h

theorem Kept.step {events : Str → List CustodyEvent} (h : Kept P events db) {e : Entry}
    (htimed : e.Timed) (hstep : Step P db e db') : Kept P (e.record events) db' := by
  obtain ⟨amb, call, outcome⟩ := e
  have hkept := wp_kept h amb call
  rcases outcome with e | r
  · have hsame := wp_error hkept hstep
    exact hsame
  · exact wp_ok hkept hstep htimed

/-! ### Every run -/

theorem kept_empty : Kept P (fun _ => []) Db.empty :=
  ⟨fun _ => ⟨fun hs => absurd hs (by simp [Db.empty]), fun _ => ⟨rfl, rfl⟩⟩,
    fun _ _ hr => absurd hr (by simp [Db.empty])⟩

/-- Runs from a new store whose labels the guard allows. -/
def Calls (P : Platform) (guard : Entry → Prop) : List Entry → Db → Prop :=
  Run (Guarded (fun _ e => guard e) (Step P)) Db.empty

theorem Calls.kept {entries : List Entry} (hrun : Calls P Entry.Timed entries db) :
    Kept P (recorded entries) db := by
  induction hrun with
  | nil => exact kept_empty
  | snoc _ hstep ih =>
    rw [recorded, List.foldl_append]
    exact ih.step hstep.1 hstep.2

/-- What a purge at `stamp` has to do. -/
structure Purges (P : Platform) (stamp : Double) (db db' : Db) : Prop where
  cases : ∀ c row, db'.cases.get? c = some row ↔
    db.cases.get? c = some row ∧ ¬db.Expired stamp c
  evidence : ∀ e row, db'.evidence.get? e = some row ↔
    db.evidence.get? e = some row ∧ ¬db.Expired stamp row.caseId
  observables : ∀ o row, db'.observables.get? o = some row ↔
    db.observables.get? o = some row ∧ ¬db.Expired stamp row.caseId
  timeline : ∀ row, row ∈ db'.timeline ↔ row ∈ db.timeline ∧ ¬db.Expired stamp row.caseId
  kept : ∀ e, (∀ row, db.evidence.get? e = some row → ¬db.Expired stamp row.caseId) →
    db'.chain e = db.chain e ∧ db'.heads.get? e = db.heads.get? e ∧
      db'.receipts.get? e = db.receipts.get? e
  receipts : ∀ e row, db.evidence.get? e = some row → db.Expired stamp row.caseId →
    verifyReceipt P e db' = true ∧ ∃ r last, db'.receipts.get? e = some r ∧
      r.eventCount = (db.chain e).length ∧ (db.chain e).getLast? = some last ∧
      r.finalHash = last.eventHash

theorem Kept.purges {events : Str → List CustodyEvent} {stamp : Double} (h : Kept P events db)
    (hswept : Swept P stamp (db.expiredCases stamp) db db') : Purges P stamp db db' := by
  refine ⟨fun c row => ?_, fun e row => ?_, fun o row => ?_, fun row => ?_, fun e he => ?_,
    fun e row hrow hexpired => ?_⟩
  · rw [hswept.cases]
    by_cases hc : c ∈ db.expiredCases stamp
    · rw [if_pos hc]
      exact iff_of_false (by simp) fun hn => hn.2 (Db.mem_expiredCases.mp hc)
    · rw [if_neg hc]
      exact (and_iff_left fun hn => hc (Db.mem_expiredCases.mpr hn)).symm
  · rw [hswept.evidence, Option.filter_eq_some_iff, decide_eq_true_iff, Db.mem_expiredCases]
  · rw [hswept.observables, Option.filter_eq_some_iff, decide_eq_true_iff, Db.mem_expiredCases]
  · rw [hswept.timeline, List.mem_filter, decide_eq_true_iff, Db.mem_expiredCases]
  · have hg : ¬db.gone (db.expiredCases stamp) e := by
      rintro ⟨row, hrow, hin⟩
      exact he row hrow (Db.mem_expiredCases.mp hin)
    exact ⟨by rw [hswept.chain, if_neg hg], by rw [hswept.heads, if_neg hg],
      by rw [hswept.receipts, if_neg hg]⟩
  · have hg : db.gone (db.expiredCases stamp) e := ⟨row, hrow, Db.mem_expiredCases.mpr hexpired⟩
    have hin := (h.holds e).1 (by rw [hrow]; rfl)
    have hget : db'.receipts.get? e =
        some (receiptOf P stamp e (sealedHead P e (db.chain e))) := by
      rw [hswept.receipts, if_pos hg, hin.head]
      rfl
    obtain ⟨last, hlast⟩ := Option.ne_none_iff_exists'.mp
      (mt List.getLast?_eq_none_iff.mp hin.nonempty)
    refine ⟨?_, _, last, hget, rfl, hlast, ?_⟩
    · rw [verifyReceipt, hget, Option.any_some, decide_eq_true_iff]
      exact (h.purged hswept).receipted e _ hget
    · change chainTip (db.chain e) = _
      rw [chainTip, HashChain.tip, hlast]
      rfl

/-- CORRECT: while no accepted custody event is at the negative zero, exactly the evidence in the
    store verifies and its chains list the events accepted since it was added; a purge removes the
    expired cases with all that is theirs, and leaves receipts that verify; a listed call that
    raises changes no table. -/
theorem timed_custody {entries : List Entry} (hrun : Calls P Entry.Timed entries db) :
    (∀ id, (verifyCustody P id db).1 = .ok true ↔
      ∃ e, encode id = some e ∧ (db.evidence.get? e).isSome = true) ∧
    (∀ e, (db.evidence.get? e).isSome = true →
      (db.chain e).map CustodyRow.event = recorded entries e) ∧
    (∀ amb now, ∃ n db', purgeExpired P amb now db = (.ok n, db') ∧
      Purges P (now.getD amb.clock) db db') ∧
    ∀ amb (c : Call) e db', c.Listed → c.run P amb db = (.error e, db') → db' = db := by
  have hkept := hrun.kept
  refine ⟨fun id => ?_, fun e he => ((hkept.holds e).1 he).events, fun amb now => ?_,
    fun amb c e db' hc hrun => ?_⟩
  · have hwp : wp (verifyCustody P id)
        (fun b _ => ∃ e, encode id = some e ∧ b = verifyChain P e db)
        (fun _ _ => encode id = none) db := by
      rw [verifyCustody, wp_bind, wp_text]
      exact ⟨fun e he => ⟨e, he, rfl⟩, fun hn => hn⟩
    rcases hend : verifyCustody P id db with ⟨e | b, t⟩
    · have hnone := wp_error hwp hend
      refine iff_of_false (by simp) ?_
      rintro ⟨e, he, -⟩
      exact absurd (hnone.symm.trans he) (by simp)
    · obtain ⟨e, he, rfl⟩ := wp_ok hwp hend
      constructor
      · exact fun hb => ⟨e, he, (hkept.holds e).verifies_iff.mp (Except.ok.inj hb)⟩
      · rintro ⟨e', he', hs⟩
        obtain rfl := Option.some.inj (he.symm.trans he')
        rw [(hkept.holds e).verifies_iff.mpr hs]
  · have hpurge : wp (purgeExpired P amb now)
        (fun n t => n = (db.expiredCases (now.getD amb.clock)).length ∧
          Swept P (now.getD amb.clock) (db.expiredCases (now.getD amb.clock)) db t)
        (fun _ _ => False) db := wp_purgeExpired amb now
    rcases hend : purgeExpired P amb now db with ⟨e | n, t⟩
    · exact (wp_error hpurge hend).elim
    · exact ⟨n, t, rfl, hkept.purges (wp_ok hpurge hend).2⟩
  · have hsame := wp_error (wp_raises amb hc) hrun
    exact hsame

/-! ### Evidence collected at the negative zero -/

/-- Hashes that tell a negative number in a document. -/
def samplePlatform : Platform where
  sha256
    | .obj members => if members.any fun m =>
        match m.2 with
        | .float (.finite d) => d.neg
        | _ => false
      then ['1'] else ['0']
    | _ => []
  sign := id
  mac _ := []
  indexMac _ := []
  recordMac _ := []
  pathName := id
  lowered := id
  normalize _ _ := none

def sampleAmbient : Ambient := ⟨Double.zero, []⟩

/-- A case, and evidence of it collected at `stamp`. -/
def sampleCase : Call :=
  .createCase ⟨[], [], [], Double.zero, none, some (lit "c")⟩

def sampleEvidence (stamp : Double) : Call :=
  .addEvidence (lit "c") ⟨lit "e", lit "f", List.replicate 64 (.char '0'), 0, [], [], Double.zero,
    lit "public"⟩ (lit "a") (some stamp)

def Db.after (db : Db) (c : Call) : Db := (c.run samplePlatform sampleAmbient db).2

def Db.entry (db : Db) (c : Call) : Entry :=
  ⟨sampleAmbient, c, (c.run samplePlatform sampleAmbient db).1⟩

def sampleStore (stamp : Double) : Db := (Db.empty.after sampleCase).after (sampleEvidence stamp)

def sampleEntries (stamp : Double) : List Entry :=
  [Db.empty.entry sampleCase, (Db.empty.after sampleCase).entry (sampleEvidence stamp)]

theorem sampleEntries_run (stamp : Double) {guard : Entry → Prop}
    (hguard : ∀ e ∈ sampleEntries stamp, guard e) :
    Calls samplePlatform guard (sampleEntries stamp) (sampleStore stamp) := by
  have hcase : Calls samplePlatform guard [Db.empty.entry sampleCase] (Db.empty.after sampleCase) :=
    .single ⟨hguard _ List.mem_cons_self, rfl⟩
  exact .snoc hcase ⟨hguard _ (List.mem_cons_of_mem _ List.mem_cons_self), rfl⟩

/-- Evidence collected at zero verifies. -/
theorem timed_custody_sample :
    (verifyCustody samplePlatform (lit "e") (sampleStore Double.zero)).1 = .ok true := by
  refine ((timed_custody (sampleEntries_run Double.zero fun e he _ => ?_)).1 (lit "e")).mpr
    ⟨"e".toList, encode_ofStr _, by decide⟩
  rcases List.mem_cons.mp he with rfl | he
  · simp [Db.entry, sampleCase, Call.stamp]
  · obtain rfl := List.mem_singleton.mp he
    exact fun hn => absurd (Option.some.inj hn) Double.zero_ne_negZero

/-- Evidence collected at the negative zero is in the store and does not verify. -/
theorem negative_zero_fails : ∃ entries db, Calls samplePlatform (fun _ => True) entries db ∧
    (db.evidence.get? "e".toList).isSome = true ∧
    (verifyCustody samplePlatform (lit "e") db).1 = .ok false := by
  refine ⟨_, _, sampleEntries_run Double.negZero fun _ _ => trivial, by decide, ?_⟩
  have hfalse : (verifyCustody samplePlatform (lit "e") (sampleStore Double.negZero)).1.toOption =
      some false := by decide
  rcases hend : (verifyCustody samplePlatform (lit "e") (sampleStore Double.negZero)).1 with e | b
  · rw [hend] at hfalse
    exact absurd hfalse (by simp [Except.toOption])
  · rw [hend] at hfalse
    exact congrArg _ (Option.some.inj hfalse)

end Angerona.CaseStore
