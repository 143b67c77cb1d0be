import Angerona.Response.Dispatch

/-!
    What a broker that starts again holds.

    The authenticator of the state file is computed over the objects in memory and checked over the
    objects that the file is decoded to. The two agree when the results of all handlers have strings
    as keys, at every level: a dictionary `{2: …, 10: …}` is written in the order of its numbers and
    signed again in the order of their texts. A tuple comes back as a list, and an object that is
    changed after its receipt was signed is written as it is then, under the old signature. -/

namespace Angerona.Response
open Text PyJson Raising Effect Transition

variable {m : Machine} {v : ApprovalIdentityVerifier} {s t : Site} {α : Type}

/-! ### Records that load -/

/-- The approvals are within their bounds, and every receipt verifies and has a named result. -/
structure Tidy (m : Machine) (r : Records) : Prop where
  proofs : ∀ d proofs, r.approvals.get? d = some proofs → proofs.size ≤ 128 ∧
    ∀ c p, proofs.get? c = some p → p.wellFormed = true
  receipts : ∀ k receipt, r.receipts.get? k = some receipt →
    (Value.dict receipt.result).named = true ∧ receipt.tupled = false ∧
      m.verifyReceipt receipt = true

/-- `r` holds what `s` holds, with the results of its receipts in the order of their texts. -/
structure Restored (m : Machine) (s r : Records) : Prop where
  approvals : ∀ d c, r.proof d c = s.proof d c
  attempts : ∀ k, r.attempts.get? k = s.attempts.get? k
  proposals : ∀ d, d ∈ r.revokedProposals ↔ d ∈ s.revokedProposals
  keys : ∀ k, k ∈ r.revokedKeys ↔ k ∈ s.revokedKeys
  subjects : ∀ p, p ∈ r.revokedSubjects ↔ p ∈ s.revokedSubjects
  receipts : ∀ k, r.receipts.get? k = (s.receipts.get? k).map ResponseReceipt.sorted
  verified : ∀ k receipt, r.receipts.get? k = some receipt → m.verifyReceipt receipt = true

theorem strict_record_iff {fields : List (Str × Value)} :
    (record fields).strict = true ↔ ∀ f ∈ fields, f.2.strict = true := by
  rw [record, Value.strict, strictItems_iff, List.forall_mem_map]
  exact forall₂_congr fun _ _ => and_iff_right rfl

/-- The order of a named result does not show in the text that a receipt authenticates. -/
theorem core_canonical {r : ResponseReceipt} {text : Json}
    (hn : (Value.dict r.result).named = true)
    (h : m.canonical (record r.core) = .ok text) : m.canonical (record r.arranged.core) = .ok text := by
  obtain ⟨hs, hd⟩ := canonical_ok.mp h
  have hnames : (r.core.map Prod.fst).Nodup :=
    (List.nodup_append.mp (by have := r.names_nodup; rwa [List.map_append] at this)).1
  have hmem : ("result".toList, Value.dict r.result) ∈ r.core :=
    List.mem_of_getElem? (i := 7) rfl
  obtain ⟨_, _, _, hfields⟩ := loads_fields hnames hd
  obtain ⟨c, hc, -⟩ := hfields _ hmem
  obtain ⟨hsorted, hc'⟩ := canonical_ok.mp
    (canonical_decode hn (canonical_ok.mpr ⟨strict_record_iff.mp hs _ hmem, hc⟩)).2
  have hsame : (Value.dict r.arranged.result) = (Value.dict r.result).sorted := by
    rw [Value.sorted, ResponseReceipt.arranged, ResponseReceipt.sorted]
  refine canonical_ok.mpr ⟨?_, ?_⟩
  · rw [strict_record_iff] at hs ⊢
    simp only [ResponseReceipt.core, List.forall_mem_cons] at hs ⊢
    obtain ⟨h1, h2, h3, h4, h5, h6, h7, -, h9⟩ := hs
    exact ⟨h1, h2, h3, h4, h5, h6, h7, by rw [hsame]; exact hsorted, h9⟩
  · rw [← hd]
    refine dumps_record_congr ?_
    have hresult : (Value.dict r.arranged.result).dumps m.repr true =
        (Value.dict r.result).dumps m.repr true := by
      rw [hsame, hc', hc]
    exact .cons ⟨rfl, rfl⟩ <| .cons ⟨rfl, rfl⟩ <| .cons ⟨rfl, rfl⟩ <| .cons ⟨rfl, rfl⟩ <|
      .cons ⟨rfl, rfl⟩ <| .cons ⟨rfl, rfl⟩ <| .cons ⟨rfl, rfl⟩ <| .cons ⟨rfl, hresult⟩ <|
      .cons ⟨rfl, rfl⟩ .nil

theorem verifyReceipt_arranged {r : ResponseReceipt} (hn : (Value.dict r.result).named = true)
    (h : m.verifyReceipt r = true) : m.verifyReceipt r.arranged = true := by
  rw [Machine.verifyReceipt, Bool.and_eq_true] at h ⊢
  obtain ⟨hhex, h⟩ := h
  refine ⟨hhex, ?_⟩
  split at h
  · rename_i text htext
    rw [core_canonical hn htext]
    exact h
  · cases h

namespace Records

theorem fields_named {r : Records} (h : Tidy m r) : (record r.fields).named = true := by
  refine named_record.mpr ⟨r.fields_nodup, ?_⟩
  have hreceipts : (ofDict ResponseReceipt.value r.receipts).named = true :=
    ofDict_named fun receipt hr => by
      obtain ⟨k, hk⟩ := Dict.mem_values.mp hr
      exact receipt.value_named (h.receipts k receipt hk).1
  simp only [fields, List.forall_mem_cons, approvals_named, hreceipts, attempts_named, sortedSet,
    named_texts]
  simp

/-- Tidy records pass the checks of `_load_state`. -/
theorem restore_sorted {r : Records} (h : Tidy m r) {d : List (Key × Value)}
    (hget : ∀ f ∈ r.fields, getItem f.1 d = f.2.sorted) : restore m d = some r.arranged := by
  have hfield : ∀ (k : ℕ) (f : Str × Value), r.fields[k]? = some f → getItem f.1 d = f.2.sorted :=
    fun k f hf => hget f (List.mem_of_getElem? hf)
  have hproofs : (PyJson.arranged (PyJson.arranged id) r.approvals).values.all
      (fun proofs => proofs.size ≤ 128 ∧ proofs.values.all (·.wellFormed)) = true := by
    rw [List.all_eq_true]
    intro proofs hp
    obtain ⟨k, hk⟩ := Dict.mem_values.mp hp
    rw [get?_arranged] at hk
    obtain ⟨old, hold, rfl⟩ := Option.map_eq_some_iff.mp hk
    obtain ⟨hsize, hwell⟩ := h.proofs k old hold
    have hlen : (PyJson.arranged id old).size = old.size := by
      simp [Dict.size, PyJson.arranged]
    rw [decide_eq_true_iff]
    refine ⟨hlen.trans_le hsize, List.all_eq_true.mpr fun p hp => ?_⟩
    obtain ⟨c, hc⟩ := Dict.mem_values.mp hp
    rw [get?_arranged, Option.map_id, id] at hc
    exact hwell c p hc
  have hreceipts : (PyJson.arranged ResponseReceipt.arranged r.receipts).values.all
      m.verifyReceipt = true := by
    rw [List.all_eq_true]
    intro receipt hr
    obtain ⟨k, hk⟩ := Dict.mem_values.mp hr
    rw [get?_arranged] at hk
    obtain ⟨old, hold, rfl⟩ := Option.map_eq_some_iff.mp hk
    obtain ⟨hn, -, hv⟩ := h.receipts k old hold
    exact verifyReceipt_arranged hn hv
  simp only [restore, Option.bind_eq_bind, hfield 0 _ rfl, approvals_back, Option.bind_some,
    if_pos hproofs, hfield 1 _ rfl, receipts_back, if_pos hreceipts, hfield 2 _ rfl, attempts_back,
    hfield 3 _ rfl, hfield 4 _ rfl, hfield 5 _ rfl, sortedSet_back]
  rfl

/-- The text of tidy records is loaded, and gives the records back arranged. -/
theorem load_tidy {r : Records} {text : Json} (h : Tidy m r) (he : r.encode m = .ok text)
    (hlen : text.length m.repr 0 ≤ maxStateBytes) : load m text = some r.arranged := by
  obtain ⟨body, hbody, htext⟩ := encode_ok he
  have hbodyNamed := fields_named h
  have hnamed : (record [("schema".toList, .str schema), ("records".toList, record r.fields),
      ("hmac".toList, .str (m.stateHmac body))]).named = true := by
    refine named_record.mpr ⟨file_nodup _ _, ?_⟩
    simp only [List.forall_mem_cons, hbodyNamed]
    simp [Value.named]
  obtain ⟨d, hd, -, hget⟩ := getItem_sorted (file_nodup (record r.fields) (.str (m.stateHmac body)))
  obtain ⟨d', hd', -, hget'⟩ := getItem_sorted r.fields_nodup
  have hrecords := hget _ (List.mem_of_getElem? (i := 1) rfl)
  have hschema := hget _ (List.mem_of_getElem? (i := 0) rfl)
  have hhmac := hget _ (List.mem_of_getElem? (i := 2) rfl)
  have hagain : m.canonical (.dict d') = .ok body := by
    rw [← hd']
    exact (canonical_decode hbodyNamed hbody).2
  dsimp only at hrecords hschema hhmac
  have hsame : ∀ text : Str, ¬(Value.sorted (.str text)).text? ≠ some text := fun _ => by
    rw [not_not]
    rfl
  simp only [load, if_neg (Nat.not_lt.mpr hlen), (canonical_decode hnamed htext).1, hd,
    Option.bind_eq_bind, Option.bind_some, Value.dict?, hrecords, hd', hschema,
    if_neg (hsame schema), hagain, Except.toOption, hhmac, if_neg (hsame (m.stateHmac body))]
  exact restore_sorted h hget'

theorem restored_arranged {r : Records} (h : Tidy m r) : Restored m r r.arranged where
  approvals d c := r.proof_arranged d c
  attempts k := by simp [arranged]
  proposals _ := mem_setOf
  keys _ := mem_setOf
  subjects _ := mem_setOf
  receipts k := by
    refine (get?_arranged _ _ k).trans ?_
    rcases hk : r.receipts.get? k with _ | receipt
    · rfl
    · have huntupled : receipt.sorted.tupled = false := (h.receipts k receipt hk).2.1
      rw [Option.map_some, Option.map_some, ResponseReceipt.arranged, ← huntupled]
  verified k receipt hk := by
    rw [show r.arranged.receipts = PyJson.arranged ResponseReceipt.arranged r.receipts from rfl,
      get?_arranged] at hk
    obtain ⟨old, hold, rfl⟩ := Option.map_eq_some_iff.mp hk
    obtain ⟨hn, -, hv⟩ := h.receipts k old hold
    exact verifyReceipt_arranged hn hv

end Records

/-! ### Calls -/

theorem tidy_empty : Tidy m .empty :=
  ⟨fun d proofs h => by simp [Records.empty] at h, fun k r h => by simp [Records.empty] at h⟩

theorem tidy_arranged {r : Records} (h : Tidy m r) : Tidy m r.arranged where
  proofs d proofs hd := by
    rw [show r.arranged.approvals = PyJson.arranged (PyJson.arranged id) r.approvals from rfl,
      get?_arranged] at hd
    obtain ⟨old, hold, rfl⟩ := Option.map_eq_some_iff.mp hd
    obtain ⟨hsize, hwell⟩ := h.proofs d old hold
    refine ⟨?_, fun c p hc => hwell c p (by simpa using hc)⟩
    simpa [Dict.size, PyJson.arranged] using hsize
  receipts k receipt hk := by
    refine ⟨?_, ?_, (Records.restored_arranged h).verified k receipt hk⟩
    all_goals rw [show r.arranged.receipts = PyJson.arranged ResponseReceipt.arranged r.receipts from rfl,
      get?_arranged] at hk
    all_goals obtain ⟨old, hold, rfl⟩ := Option.map_eq_some_iff.mp hk
    · have hnamed := named_sorted (h.receipts k old hold).1
      rwa [Value.sorted] at hnamed
    · rfl

/-- The records in memory and those saved are tidy, and the file is the text of the saved ones. -/
structure Kept (m : Machine) (s : Site) : Prop where
  enrolled : s.disk.marker = true
  records : Tidy m s.broker.records
  saved : Tidy m s.saved
  file : ∀ text, s.disk.file = some text →
    s.saved.encode m = .ok text ∧ text.length m.repr 0 ≤ Records.maxStateBytes

/-- The records in memory are those saved, as they were written or as they came back. -/
def Mirrors (s : Site) : Prop :=
  s.broker.records = s.saved ∨ s.broker.records = s.saved.arranged

theorem framed_kept : Framed (Kept m) := by
  intro s t h ha
  refine ⟨?_, ?_, ?_, ?_⟩
  · rw [ha.disk]
    exact h.enrolled
  · rw [ha.records]
    exact h.records
  · rw [ha.saved]
    exact h.saved
  · rw [ha.disk, ha.saved]
    exact h.file

theorem framed_mirrors : Framed Mirrors := by
  intro s t h ha
  rw [Mirrors, ha.records, ha.saved]
  exact h

/-- What a call that returns keeps, and `R` of its result. -/
def Keeps (m : Machine) (R : α → Prop) (c : Call α) (s : Site) : Prop :=
  wp c (fun a t => Kept m t ∧ (Mirrors s → Mirrors t) ∧ R a) (fun _ => Kept m) s

theorem Quiet.keeps {c : Call α} {R : α → Prop} (hc : Quiet c fun _ => R) (h : Kept m s) :
    Keeps m R c s :=
  wp_mono (hc s) (fun _ t ha => ⟨framed_kept s t h ha.1, fun hm => framed_mirrors s t hm ha.1, ha.2⟩)
    fun _ t ha => framed_kept s t h ha

theorem Kept.setRecords {f : Records → Records} (h : Kept m s)
    (hf : Tidy m (f s.broker.records)) : Kept m (s.setRecords f) :=
  ⟨h.enrolled, hf, h.saved, h.file⟩

/-- A save that returns leaves the records in memory as those saved. -/
theorem kept_saveState (h : Kept m s) : wp (saveState m) (fun _ t => Kept m t ∧ Mirrors t)
    (fun _ => Kept m) s := by
  have hwrote : ∀ t, Wrote m s t → Kept m t := by
    intro t hw
    obtain ⟨text, hencode, hlen, hdisk⟩ := hw.file
    refine ⟨?_, ?_, ?_, fun text' ht => ?_⟩
    · rw [hdisk]
      exact h.enrolled
    · rw [hw.records]
      exact h.records
    · rw [hw.saved]
      exact h.records
    · rw [hdisk] at ht
      obtain rfl := Option.some.inj ht
      rw [hw.saved]
      exact ⟨hencode, hlen⟩
  refine wp_mono wp_saveState (fun _ t hw => ⟨hwrote t hw, Or.inl ?_⟩) fun _ t ht => ?_
  · rw [hw.records, hw.saved]
  · exact ht.elim (framed_kept s t h) (hwrote t)

theorem kept_admitted {body : Call α} (hs : Kept m s)
    (h : ∀ t, Kept m t → (Mirrors s → Mirrors t) → wp body
      (fun _ u => Kept m u ∧ (Mirrors s → Mirrors u)) (fun _ => Kept m) t) :
    Keeps m (fun _ => True) (admitted body) s := by
  have hQ : Framed fun u => Kept m u ∧ (Mirrors s → Mirrors u) := fun t u ht ha =>
    ⟨framed_kept t u ht.1 ha, fun hm => framed_mirrors t u (ht.2 hm) ha⟩
  refine wp_mono (wp_admitted hQ framed_kept hs fun t ha => ?_)
    (fun _ _ ht => ⟨ht.1, ht.2, trivial⟩) fun _ _ ht => ht
  exact h t (framed_kept s t hs ha) fun hm => framed_mirrors s t hm ha

theorem tidy_approve {r : Records} {digest : Str} {proof : SignedPrincipalProof} (h : Tidy m r)
    (hp : proof.wellFormed = true)
    (hsize : ¬(128 ≤ ((r.approvals.get? digest).getD .empty).size ∧
      ((r.approvals.get? digest).getD .empty).get? proof.credentialId = none)) :
    Tidy m (r.approve digest proof) := by
  refine ⟨fun d proofs hd => ?_, h.receipts⟩
  rw [Records.approve, Dict.get?_set] at hd
  split at hd
  · obtain rfl := Option.some.inj hd
    generalize hold : (r.approvals.get? digest).getD .empty = old at hsize
    have hkept : old.size ≤ 128 ∧ ∀ c p, old.get? c = some p → p.wellFormed = true := by
      rcases hg : r.approvals.get? digest with _ | proofs
      · rw [hg] at hold
        obtain rfl := hold
        exact ⟨by simp [Dict.size, Dict.empty], fun c p hc => by simp at hc⟩
      · rw [hg] at hold
        obtain rfl := hold
        exact h.proofs digest proofs hg
    refine ⟨?_, fun c p hc => ?_⟩
    · rcases hget : old.get? proof.credentialId with _ | q
      · have hlt : old.size < 128 := by
          by_contra hge
          exact hsize ⟨Nat.le_of_not_lt hge, hget⟩
        exact (Dict.size_set_le old _ _).trans hlt
      · rw [Dict.size_set_of_mem (by rw [hget]; rfl)]
        exact hkept.1
    · rw [Dict.get?_set] at hc
      split at hc
      · obtain rfl := Option.some.inj hc
        exact hp
      · exact hkept.2 c p hc
  · exact h.proofs d proofs hd

theorem keeps_storeApproval {ticket : Ticket} (h : Kept m s)
    (ht : ticket.proof.wellFormed = true) :
    Keeps m (fun _ => True) (storeApproval m v ticket) s := by
  refine kept_admitted h fun a ha _ => ?_
  rw [wp_bind, wp_read]
  refine quiet_check.bindFramed framed_kept ha fun _ b hb hab _ => ?_
  refine quiet_check.bindFramed framed_kept hb fun _ c hc hbc _ => ?_
  refine quiet_check.bindFramed framed_kept hc fun _ d hd hcd hsize => ?_
  rw [wp_bind, wp_modify, wp_bind]
  have hkept : Kept m (d.setRecords (Records.approve ticket.digest ticket.proof)) := by
    refine hd.setRecords (tidy_approve hd.records ht ?_)
    rw [(hab.trans (hbc.trans hcd)).records]
    exact hsize
  refine wp_mono (kept_saveState (s := (d.setRecords (Records.approve ticket.digest
    ticket.proof)).note (.approved ticket.digest ticket.proof))
    ⟨hkept.enrolled, hkept.records, hkept.saved, hkept.file⟩) (fun _ e he => ?_) fun _ _ ht => ht
  refine quiet_verifiedApprovals.bind (fun _ f hf => framed_kept e f he.1 hf) fun ps f hef _ => ?_
  exact ⟨framed_kept e f he.1 hef, fun _ => framed_mirrors e f he.2 hef⟩

theorem keeps_revokeCredential {credentialId : Str} (h : Kept m s) :
    Keeps m (fun _ => True) (revokeCredential m v credentialId) s := by
  refine quiet_demand.bindFramed framed_kept h fun record a ha hsa _ => ?_
  refine wp_mono (kept_admitted ha fun b hb _ => ?_) (fun _ _ ht => ⟨ht.1, fun hm =>
    ht.2.1 (framed_mirrors s a hm hsa), trivial⟩) fun _ _ ht => ht
  rw [wp_bind, wp_modify, wp_bind]
  refine wp_mono (kept_saveState (hb.setRecords ⟨hb.records.proofs, hb.records.receipts⟩))
    (fun _ c hc => ?_) fun _ _ ht => ht
  exact ⟨⟨hc.1.enrolled, hc.1.records, hc.1.saved, hc.1.file⟩, fun _ => hc.2⟩

theorem keeps_revokeProposal {digest : Str} (h : Kept m s) :
    Keeps m (fun _ => True) (revokeProposal m digest) s := by
  refine quiet_check.bindFramed framed_kept h fun _ a ha hsa _ => ?_
  refine wp_mono (kept_admitted ha fun b hb _ => ?_) (fun _ _ ht => ⟨ht.1, fun hm =>
    ht.2.1 (framed_mirrors s a hm hsa), trivial⟩) fun _ _ ht => ht
  rw [wp_bind, wp_modify, wp_bind]
  refine wp_mono (kept_saveState (hb.setRecords ⟨hb.records.proofs, hb.records.receipts⟩))
    (fun _ c hc => ?_) fun _ _ ht => ht
  exact ⟨⟨hc.1.enrolled, hc.1.records, hc.1.saved, hc.1.file⟩, fun _ => hc.2⟩

theorem keeps_register {o : ResponseOperation} (h : Kept m s) :
    Keeps m (fun _ => True) (register o) s := by
  refine quiet_check.bindFramed framed_kept h fun _ a ha hsa _ => ?_
  refine wp_mono (kept_admitted ha fun b hb hm => ?_) (fun _ _ ht => ⟨ht.1, fun hm =>
    ht.2.1 (framed_mirrors s a hm hsa), trivial⟩) fun _ _ ht => ht
  rw [wp_bind, wp_read]
  refine quiet_check.bindFramed framed_kept hb fun _ c hc hbc _ => ?_
  rw [wp_modify]
  exact ⟨⟨hc.enrolled, hc.records, hc.saved, hc.file⟩, fun hs =>
    framed_mirrors b c (hm hs) hbc⟩

/-- A receipt of a named result without tuples is kept. -/
theorem keeps_recordReceipt {proposal : ResponseProposal} {digest outcome : Str} {executed : Bool}
    {approvals : List Str} {result : List (Key × Value)} (h : Kept m s)
    (hn : (Value.dict result).named = true) :
    wp (recordReceipt m proposal digest outcome executed approvals result false)
      (fun _ t => Kept m t ∧ Mirrors t) (fun _ => Kept m) s := by
  refine quiet_demand.bindFramed framed_kept h fun encoded a ha _ _ => ?_
  refine quiet_check.bindFramed framed_kept ha fun _ b hb _ _ => ?_
  refine quiet_now.bindFramed framed_kept hb fun recordedAt c hc _ _ => ?_
  refine quiet_demand.bindFramed framed_kept hc fun text d hd _ htext => ?_
  rw [wp_bind, wp_modify, wp_bind]
  refine wp_mono (kept_saveState (hd.setRecords ⟨hd.records.proofs, fun k receipt hk => ?_⟩))
    (fun _ e he => he) fun _ _ ht => ht
  rw [Dict.get?_set] at hk
  split at hk
  · obtain rfl := Option.some.inj hk
    refine ⟨hn, rfl, ?_⟩
    rw [Machine.verifyReceipt, m.hmac_hex, Bool.true_and]
    rcases hcore : m.canonical (record (ResponseReceipt.core ⟨proposal.proposalId, digest,
      proposal.operationId, proposal.targetId, outcome, executed, approvals, result, false,
      recordedAt, []⟩)) with e | j
    · rw [hcore] at htext
      cases htext
    · rw [hcore] at htext
      obtain rfl := Option.some.inj htext
      simp only [ResponseReceipt.core] at hcore ⊢
      rw [hcore]
      exact decide_eq_true rfl
  · exact hd.records.receipts k receipt hk

section Execution

variable {proposal : ResponseProposal} {digest : Str} {operation : ResponseOperation}

theorem keeps_burn (h : Kept m s) : wp (burn m v proposal digest operation)
    (fun _ t => Kept m t ∧ Mirrors t) (fun _ => Kept m) s := by
  refine quiet_configured.bindFramed framed_kept h fun configured a ha _ _ => ?_
  refine quiet_check.bindFramed framed_kept ha fun _ b hb _ _ => ?_
  rw [wp_bind, wp_read]
  refine quiet_check.bindFramed framed_kept hb fun _ c hc _ _ => ?_
  refine quiet_check.bindFramed framed_kept hc fun _ d hd _ _ => ?_
  refine quiet_check.bindFramed framed_kept hd fun _ e he _ _ => ?_
  rw [wp_bind, wp_modify]
  exact kept_saveState (he.setRecords ⟨he.records.proofs, he.records.receipts⟩)

theorem keeps_dispatch {admittedAt : Double} (h : Kept m s) (hm : Mirrors s) :
    wp (dispatch m v proposal digest operation admittedAt)
      (fun _ t => Kept m t ∧ Mirrors t) (fun _ => Kept m) s := by
  refine quiet_ensureAccepting.bindFramed framed_kept h fun _ a ha hsa _ => ?_
  refine quiet_now.bindFramed framed_kept ha fun dispatchAt b hb hab _ => ?_
  rw [wp_ite]
  refine ⟨fun _ => ?_, fun _ => ?_⟩
  · rw [wp_bind, wp_modify, wp_raise]
    exact framed_kept b _ hb ⟨rfl, rfl, rfl, rfl, rfl⟩
  refine quiet_check.bindFramed framed_kept hb fun _ c hc hbc _ => ?_
  rw [wp_bind, wp_read]
  refine quiet_check.bindFramed framed_kept hc fun _ d hd hcd _ => ?_
  refine quiet_configured.bindFramed framed_kept hd fun configured e he hde _ => ?_
  refine quiet_check.bindFramed framed_kept he fun _ f hf hef _ => ?_
  refine quiet_verifiedApprovals.bindFramed framed_kept hf fun current g hg hfg _ => ?_
  refine quiet_now.bindFramed framed_kept hg fun finalAt k hk hgk _ => ?_
  rw [wp_ite]
  refine ⟨fun _ => ?_, fun _ => ?_⟩
  · rw [wp_bind, wp_modify, wp_raise]
    exact framed_kept k _ hk ⟨rfl, rfl, rfl, rfl, rfl⟩
  refine quiet_check.bindFramed framed_kept hk fun _ l hl hkl _ => ?_
  refine quiet_ensureAccepting.bindFramed framed_kept hl fun _ n hn hln _ => ?_
  rw [wp_bind, wp_modify, wp_pure]
  have hsn := hsa.trans (hab.trans (hbc.trans (hcd.trans (hde.trans (hef.trans (hfg.trans
    (hgk.trans (hkl.trans hln))))))))
  exact ⟨⟨hn.enrolled, hn.records, hn.saved, hn.file⟩, framed_mirrors s n hm hsn⟩

theorem preview_named (o : ResponseOperation) : (Value.dict (preview o)).named = true := by
  have hn : (([("validated".toList, Value.bool true), ("risk".toList, Value.str o.risk.text),
      ("rollback".toList, .str o.rollback)] : List (Str × Value)).map Prod.fst).Nodup := by
    simp only [List.map_cons, List.map_nil]
    decide
  refine named_record.mpr ⟨hn, ?_⟩
  simp [Value.named]

theorem keeps_prepare {valid : Bool} (h : Kept m s) :
    Keeps m (fun _ => True) (prepare m v proposal digest valid) s := by
  rw [Keeps, prepare, wp_bind, wp_read]
  have hwritten : ∀ {c : Call Progress} {t : Site},
      wp c (fun _ t => Kept m t ∧ Mirrors t) (fun _ => Kept m) t →
        wp c (fun _ t => Kept m t ∧ (Mirrors s → Mirrors t) ∧ True) (fun _ => Kept m) t :=
    fun hc => wp_mono hc (fun _ _ ht => ⟨ht.1, fun _ => ht.2, trivial⟩) fun _ _ ht => ht
  rcases s.broker.records.receipts.get? proposal.proposalId with _ | existing
  · refine quiet_demand.bindFramed framed_kept h fun operation a ha _ _ => ?_
    refine quiet_now.bindFramed framed_kept ha fun admittedAt b hb _ _ => ?_
    refine quiet_check.bindFramed framed_kept hb fun _ c hc _ _ => ?_
    refine quiet_check.bindFramed framed_kept hc fun _ d hd _ _ => ?_
    refine quiet_verifiedApprovals.bindFramed framed_kept hd fun verified e he _ _ => ?_
    refine quiet_check.bindFramed framed_kept he fun _ f hf _ _ => hwritten ?_
    rw [wp_ite]
    refine ⟨fun _ => ?_, fun _ => ?_⟩
    · rw [wp_bind]
      exact wp_mono (keeps_recordReceipt hf (preview_named operation)) (fun _ _ ht => ht)
        fun _ _ ht => ht
    · rw [wp_bind]
      exact wp_mono (keeps_burn hf) (fun _ t ht => keeps_dispatch ht.1 ht.2) fun _ _ ht => ht
  · refine quiet_check.bindFramed framed_kept h fun _ a ha hsa _ => ?_
    have hstatus : Quiet (if proposal.dryRun then pure true else approvalConfigured m v)
        fun _ _ => True := by
      split
      · exact quiet_pure.weaken fun _ _ _ => trivial
      · exact quiet_configured
    refine hstatus.bindFramed framed_kept ha fun configured b hb hab _ => ?_
    refine quiet_check.bindFramed framed_kept hb fun _ c hc hbc _ => ?_
    exact ⟨hc, fun hm => framed_mirrors s c hm (hsa.trans (hab.trans hbc)), trivial⟩

theorem keeps_execute {valid : Bool} (h : Kept m s) :
    Keeps m (fun _ => True) (execute m v proposal valid) s := by
  refine quiet_demand.bindFramed framed_kept h fun text a ha hsa _ => ?_
  refine quiet_enter.bindFramed framed_kept ha fun _ b hb hab _ => ?_
  have hsb := hsa.trans hab
  have hprepare : Keeps m (fun _ => True) (prepare m v proposal (m.sha256 text) valid) b :=
    keeps_prepare hb
  have hleave : ∀ c, (Kept m c ∧ (Mirrors b → Mirrors c) ∧ True) →
      Kept m (leave c) ∧ (Mirrors s → Mirrors (leave c)) ∧ True := fun c hc =>
    ⟨framed_kept c _ hc.1 (alike_leave c), fun hm => framed_mirrors c _
      (hc.2.1 (framed_mirrors s b hm hsb)) (alike_leave c), trivial⟩
  unfold Keeps wp at hprepare
  unfold wp
  dsimp only
  rcases hp : prepare m v proposal (m.sha256 text) valid b with ⟨e | ⟨r | r⟩, c⟩
  · rw [hp] at hprepare
    exact framed_kept c _ hprepare (alike_leave c)
  · rw [hp] at hprepare
    exact hleave c hprepare
  · rw [hp] at hprepare
    exact ⟨hprepare.1, fun hm => hprepare.2.1 (framed_mirrors s b hm hsb), trivial⟩

/-- The result of the handler, if there is one, is named and has no tuples. -/
def Outcome.named : Outcome → Bool
  | .returned result tupled _ => !tupled && (Value.dict result).named
  | _ => true

theorem keeps_finish {r : Running} {o : Outcome} (h : Kept m s) (ho : o.named = true) :
    Keeps m (fun _ => True) (finish m r o) s := by
  have hleave : ∀ t, Kept m t → Kept m (leave t) := fun t ht =>
    framed_kept t _ ht (alike_leave t)
  unfold Keeps finish
  rw [wp_ensuring]
  cases o with
  | raised => exact hleave s h
  | notMapping => exact hleave s h
  | returned result tupled verdict =>
    obtain ⟨htupled, hnamed⟩ := Bool.and_eq_true_iff.mp ho
    obtain rfl : tupled = false := by simpa using htupled
    have hverdict : Quiet (if r.operation.verifyOutcome then demand verdict .callback
        else pure true : Call Bool) fun _ _ => True := by
      split
      · exact quiet_demand.weaken fun _ _ _ => trivial
      · exact quiet_pure.weaken fun _ _ _ => trivial
    refine hverdict.bind (fun _ t ha => hleave t (framed_kept s t h ha)) fun passed t ha _ => ?_
    refine wp_mono (keeps_recordReceipt (framed_kept s t h ha) hnamed) (fun _ u hu => ?_)
      fun _ u hu => hleave u hu
    exact ⟨hleave u hu.1, fun _ => framed_mirrors u _ hu.2 (alike_leave u), trivial⟩

end Execution

/-! ### Runs -/

namespace World

/-- What every state of a run with named results keeps. -/
structure Restorable (m : Machine) (w : World) : Prop where
  enrolled : w.disk.file.isSome = true → w.disk.marker = true
  saved : Tidy m w.saved
  file : ∀ text, w.disk.file = some text →
    w.saved.encode m = .ok text ∧ text.length m.repr 0 ≤ Records.maxStateBytes
  live : ∀ b, w.broker = some b → w.disk.marker = true ∧ Tidy m b.records
  mirrors : w.smooth = true → ∀ b, w.broker = some b →
    b.records = w.saved ∨ b.records = w.saved.arranged
  tickets : ∀ t ∈ w.tickets, t.proof.wellFormed = true

variable {w w' : World} {b : Broker} {tape : Tape}

theorem Restorable.call {c : Call α} {R : α → Prop} {keep : α → World → World}
    (h : Restorable m w) (hb : w.broker = some b) (hc : ∀ s, Kept m s → Keeps m R c s)
    (hkeep : ∀ a w, R a → (keep a w).broker = w.broker ∧ (keep a w).disk = w.disk ∧
      (keep a w).saved = w.saved ∧ (keep a w).smooth = w.smooth ∧
      ∀ t ∈ (keep a w).tickets, t ∈ w.tickets ∨ t.proof.wellFormed = true) :
    Restorable m (w.call b tape c keep) := by
  have hsite : Kept m (w.site b tape) := ⟨(h.live b hb).1, (h.live b hb).2, h.saved, h.file⟩
  have hcall := hc _ hsite
  rw [Keeps] at hcall
  have hkept : Kept m (c (w.site b tape)).2 :=
    wp_state (wp_mono hcall (fun _ _ ht => ht.1) fun _ _ ht => ht)
  have hafter : ∀ w₁ : World, w₁.broker = some (c (w.site b tape)).2.broker →
      w₁.disk = (c (w.site b tape)).2.disk → w₁.saved = (c (w.site b tape)).2.saved →
      (w₁.smooth = true → Mirrors (c (w.site b tape)).2) →
      (∀ t ∈ w₁.tickets, t.proof.wellFormed = true) → Restorable m w₁ := by
    intro w₁ hbroker hdisk hsaved hmirrors htickets
    refine ⟨fun _ => by rw [hdisk]; exact hkept.enrolled, by rw [hsaved]; exact hkept.saved, ?_,
      fun b' hb' => ?_, fun hs b' hb' => ?_, htickets⟩
    · rw [hdisk, hsaved]
      exact hkept.file
    · obtain rfl := Option.some.inj (hbroker.symm.trans hb')
      rw [hdisk]
      exact ⟨hkept.enrolled, hkept.records⟩
    · obtain rfl := Option.some.inj (hbroker.symm.trans hb')
      rw [hsaved]
      exact hmirrors hs
  unfold World.call
  dsimp only
  split
  · rename_i a hr
    obtain ⟨-, hmirrors, hR⟩ := wp_ok hcall (Prod.ext hr rfl)
    obtain ⟨h1, h2, h3, h4, h5⟩ := hkeep a (w.after (c (w.site b tape)).1 (c (w.site b tape)).2) hR
    refine hafter _ h1 h2 h3 (fun hs => hmirrors (h.mirrors ?_ b hb))
      fun t ht => (h5 t ht).elim (h.tickets t) id
    rw [h4, World.after, Bool.and_eq_true] at hs
    exact hs.1
  · rename_i e hr
    refine hafter _ rfl rfl rfl (fun hs => ?_) h.tickets
    rw [World.after, Bool.and_eq_true, hr] at hs
    cases hs.2

/-- A broker that starts with a file holds the saved records, arranged. -/
theorem Restorable.construct_file (h : Restorable m w) {text : Json}
    (htext : w.disk.file = some text) : w.construct m v tape =
      { w with broker := some (.fresh w.saved.arranged), verifier := v, tickets := [],
               running := [], smooth := true } := by
  obtain ⟨hencode, hlen⟩ := h.file text htext
  have hmarker := h.enrolled (by rw [htext]; rfl)
  unfold World.construct
  dsimp only
  rw [if_pos hmarker, htext, Option.bind_some, Records.load_tidy h.saved hencode hlen]

theorem Restorable.construct (h : Restorable m w) : Restorable m (w.construct m v tape) := by
  have hnone : ∀ (disk : Disk) (smooth : Bool), disk.file = none → Restorable m { w with
      broker := none, disk := disk, verifier := v, tickets := [], running := [],
      smooth := smooth } :=
    fun disk _ hf => ⟨by simp [hf], h.saved, by simp [hf], by simp, by simp, by simp⟩
  rcases htext : w.disk.file with _ | text
  · unfold World.construct
    dsimp only
    split
    · rw [htext]
      exact hnone w.disk false htext
    · rw [if_neg (by rw [htext]; decide)]
      have hkept : Kept m (({ w with
          broker := none, verifier := v, tickets := [], running := [], smooth := true
          disk := { w.disk with marker := true } } : World).site (.fresh .empty) tape) :=
        ⟨rfl, tidy_empty, h.saved, fun text ht => by
          rw [show w.disk.file = some text from ht] at htext
          cases htext⟩
      have hsave := kept_saveState hkept
      split
      · rename_i s hs
        obtain ⟨hk, hm⟩ := wp_ok hsave hs
        refine ⟨fun _ => hk.enrolled, hk.saved, hk.file, fun b hb => ?_, fun _ b hb => ?_, by simp⟩
        · obtain rfl := Option.some.inj hb
          exact ⟨hk.enrolled, hk.records⟩
        · obtain rfl := Option.some.inj hb
          exact hm
      · rename_i s hs
        have hk := wp_error hsave hs
        exact ⟨fun _ => hk.enrolled, hk.saved, hk.file, by simp, by simp, by simp⟩
  · rw [h.construct_file htext]
    refine ⟨h.enrolled, h.saved, h.file, fun b hb => ?_, fun _ b hb => ?_, by simp⟩
    · obtain rfl := Option.some.inj hb
      exact ⟨h.enrolled (by rw [htext]; rfl), tidy_arranged h.saved⟩
    · obtain rfl := Option.some.inj hb
      exact Or.inr rfl

/-- The results of handlers have strings as keys and no tuples, and nobody changes them. -/
def NamedResults (_ : World) : Label → Prop
  | .finish _ o _ => o.named = true
  | .change _ _ _ => False
  | _ => True

theorem Restorable.exec {l : Label} (h : Restorable m w) (hl : NamedResults w l)
    (hb : w.broker = some b) (he : w.exec m b l = some w') : Restorable m w' := by
  have hsame : ∀ {α : Type} (_ : α) (w : World), True → w.broker = w.broker ∧ w.disk = w.disk ∧
      w.saved = w.saved ∧ w.smooth = w.smooth ∧
      ∀ t ∈ w.tickets, t ∈ w.tickets ∨ t.proof.wellFormed = true :=
    fun _ _ _ => ⟨rfl, rfl, rfl, rfl, fun _ ht => Or.inl ht⟩
  cases l with
  | start v tape => cases he
  | register o tape =>
    obtain rfl := Option.some.inj he
    exact h.call hb (fun _ hs => keeps_register hs) hsame
  | verify proposal proof tape =>
    obtain rfl := Option.some.inj he
    refine h.call hb (fun _ hs => quiet_verifyTicket.keeps hs) fun t w ht =>
      ⟨rfl, rfl, rfl, rfl, fun t' ht' => ?_⟩
    rcases List.mem_append.mp ht' with ht' | ht'
    · exact Or.inl ht'
    · obtain rfl := List.mem_singleton.mp ht'
      exact Or.inr ht
  | approve i tape =>
    obtain ⟨t, ht, he⟩ := Option.bind_eq_some_iff.mp he
    obtain rfl := Option.some.inj he
    exact h.call hb (fun _ hs => keeps_storeApproval hs
      (h.tickets t (List.mem_of_getElem? ht))) hsame
  | execute proposal valid tape =>
    obtain rfl := Option.some.inj he
    refine h.call hb (fun _ hs => keeps_execute hs) fun p w _ => ?_
    cases p with
    | done receipt => exact ⟨rfl, rfl, rfl, rfl, fun _ ht => Or.inl ht⟩
    | running r => exact ⟨rfl, rfl, rfl, rfl, fun _ ht => Or.inl ht⟩
  | finish i o tape =>
    obtain ⟨r, -, he⟩ := Option.bind_eq_some_iff.mp he
    obtain rfl := Option.some.inj he
    have hw : Restorable m { w with running := w.running.eraseIdx i } :=
      ⟨h.enrolled, h.saved, h.file, h.live, h.mirrors, h.tickets⟩
    exact hw.call hb (fun _ hs => keeps_finish hs hl) hsame
  | change proposalId result tupled => exact hl.elim
  | revokeCredential id tape =>
    obtain rfl := Option.some.inj he
    exact h.call hb (fun _ hs => keeps_revokeCredential hs) hsame
  | revokeProposal digest tape =>
    obtain rfl := Option.some.inj he
    exact h.call hb (fun _ hs => keeps_revokeProposal hs) hsame
  | revokeIdentity id => cases he
  | close tape =>
    obtain rfl := Option.some.inj he
    exact h.call hb (fun _ hs => quiet_close.keeps hs) hsame
  | crash => cases he

theorem Restorable.step {l : Label} (h : Restorable m w) (hl : NamedResults w l)
    (hs : w.Step m l w') : Restorable m w' := by
  have hexec : w.broker.bind (fun b => w.exec m b l) = some w' → Restorable m w' := fun he => by
    obtain ⟨b, hb, he⟩ := Option.bind_eq_some_iff.mp he
    exact h.exec hl hb he
  cases l with
  | start v tape =>
    rw [World.Step, World.step] at hs
    split at hs
    · cases hs
    · obtain rfl := Option.some.inj hs
      exact h.construct
  | revokeIdentity id =>
    obtain ⟨record, -, rfl⟩ := Option.map_eq_some_iff.mp hs
    exact ⟨h.enrolled, h.saved, h.file, h.live, h.mirrors, h.tickets⟩
  | crash =>
    obtain rfl := Option.some.inj hs
    exact ⟨h.enrolled, h.saved, h.file, by simp, by simp, by simp⟩
  | _ => exact hexec hs

end World

end Angerona.Response
