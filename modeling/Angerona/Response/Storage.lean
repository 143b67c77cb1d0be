import Angerona.Response.Broker

/-!
    The state file of the response broker: what `_load_state` gives back of the records that
    `_save_state` wrote. Whatever the receipts hold, the approvals, attempts and revocations come
    back as they were, if anything does. -/

namespace Angerona.Response
open Text PyJson Raising

/-! ### Proofs and receipts -/

theorem Stamp.ofValue_sorted (s : Stamp) : Stamp.ofValue s.value.sorted = some s := by
  cases s <;> rfl

theorem Stamp.value_named (s : Stamp) : s.value.named = true := by cases s <;> rfl

/-- A stored proof comes back as it was. -/
theorem SignedPrincipalProof.ofValue_sorted (p : SignedPrincipalProof) :
    SignedPrincipalProof.ofValue p.value.sorted = some p := by
  have hn : ((p.signedFields ++ [("signature".toList, Value.str p.signature)]).map
      Prod.fst).Nodup := by
    simp only [signedFields, List.cons_append, List.nil_append, List.map_cons, List.map_nil]
    decide
  obtain ⟨d, hd, hlen, hget⟩ := getItem_sorted hn
  have hfield : ∀ (k : ℕ) (f : Str × Value),
      (p.signedFields ++ [("signature".toList, .str p.signature)])[k]? = some f →
        getItem f.1 d = f.2.sorted := fun k f hf => hget f (List.mem_of_getElem? hf)
  rw [value, hd, ofValue, if_neg (not_not.mpr (by rw [hlen]; rfl)), hfield 0 _ rfl, hfield 1 _ rfl,
    hfield 2 _ rfl, hfield 3 _ rfl, hfield 4 _ rfl, hfield 5 _ rfl, hfield 6 _ rfl, hfield 7 _ rfl,
    hfield 8 _ rfl, Stamp.ofValue_sorted, Stamp.ofValue_sorted]
  rfl

theorem SignedPrincipalProof.value_named (p : SignedPrincipalProof) : p.value.named = true := by
  refine named_record.mpr ⟨?_, ?_⟩
  · simp only [signedFields, List.cons_append, List.nil_append, List.map_cons, List.map_nil]
    decide
  · simp [signedFields, Stamp.value_named, Value.named]

/-- The receipt with its result in the order of the text. -/
def ResponseReceipt.sorted (r : ResponseReceipt) : ResponseReceipt :=
  { r with result := (sortedItems r.result).insertionSort itemLe }

/-- The receipt as it comes back from its text: its tuples are lists. -/
def ResponseReceipt.arranged (r : ResponseReceipt) : ResponseReceipt :=
  { r.sorted with tupled := false }

theorem ResponseReceipt.names_nodup (r : ResponseReceipt) :
    ((r.core ++ [("receipt_hmac".toList, Value.str r.receiptHmac)]).map Prod.fst).Nodup := by
  simp only [core, List.cons_append, List.nil_append, List.map_cons, List.map_nil]
  decide

theorem sorted_texts (xs : List Str) : (Value.list (xs.map .str)).sorted = .list (xs.map .str) := by
  rw [Value.sorted, sortedList_eq, List.map_map]
  rfl

theorem named_texts (xs : List Str) : (Value.list (xs.map .str)).named = true := by
  rw [Value.named, namedList_iff]
  intro v hv
  obtain ⟨x, -, rfl⟩ := List.mem_map.mp hv
  rfl

/-- A stored receipt comes back arranged. -/
theorem ResponseReceipt.ofValue_sorted (r : ResponseReceipt) :
    ResponseReceipt.ofValue r.value.sorted = some r.arranged := by
  obtain ⟨d, hd, hlen, hget⟩ := getItem_sorted r.names_nodup
  have hfield : ∀ (k : ℕ) (f : Str × Value),
      (r.core ++ [("receipt_hmac".toList, .str r.receiptHmac)])[k]? = some f →
        getItem f.1 d = f.2.sorted := fun k f hf => hget f (List.mem_of_getElem? hf)
  rw [value, hd, ofValue, if_neg (not_not.mpr (by rw [hlen]; rfl)), hfield 0 _ rfl, hfield 1 _ rfl,
    hfield 2 _ rfl, hfield 3 _ rfl, hfield 4 _ rfl, hfield 5 _ rfl, hfield 6 _ rfl, hfield 7 _ rfl,
    hfield 8 _ rfl, hfield 9 _ rfl]
  dsimp only
  rw [sorted_texts, texts?_map]
  rfl

theorem ResponseReceipt.value_named {r : ResponseReceipt}
    (h : (Value.dict r.result).named = true) : r.value.named = true := by
  refine named_record.mpr ⟨r.names_nodup, ?_⟩
  simp only [core, List.cons_append, List.nil_append, List.forall_mem_cons, named_texts, h]
  simp [Value.named]

/-! ### Records -/

namespace Records

/-- `sorted(set)` of a list that stands for a set. -/
def setOf (s : List Str) : List Str := s.dedup.insertionSort (· ≤ ·)

@[simp] theorem mem_setOf {s : List Str} {x : Str} : x ∈ setOf s ↔ x ∈ s := by
  rw [setOf, (List.perm_insertionSort _ _).mem_iff, List.mem_dedup]

/-- The records as they come back from their text. -/
def arranged (r : Records) : Records where
  approvals := PyJson.arranged (PyJson.arranged id) r.approvals
  receipts := PyJson.arranged ResponseReceipt.arranged r.receipts
  attempts := PyJson.arranged id r.attempts
  revokedProposals := setOf r.revokedProposals
  revokedKeys := setOf r.revokedKeys
  revokedSubjects := setOf r.revokedSubjects

@[simp] theorem proof_arranged (r : Records) (digest credentialId : Str) :
    r.arranged.proof digest credentialId = r.proof digest credentialId := by
  rw [proof, proof, arranged, get?_arranged]
  rcases r.approvals.get? digest with _ | d
  · rfl
  · simp

theorem fields_nodup (r : Records) : (r.fields.map Prod.fst).Nodup := by
  simp only [fields, List.map_cons, List.map_nil]
  decide

theorem approvals_named (r : Records) :
    (ofDict (ofDict SignedPrincipalProof.value) r.approvals).named = true :=
  ofDict_named fun _ _ => ofDict_named fun p _ => p.value_named

theorem attempts_named (r : Records) : (ofDict Value.str r.attempts).named = true :=
  ofDict_named fun _ _ => rfl

theorem approvals_back (r : Records) : toDict? (toDict? SignedPrincipalProof.ofValue)
    (ofDict (ofDict SignedPrincipalProof.value) r.approvals).sorted =
      some (PyJson.arranged (PyJson.arranged id) r.approvals) :=
  toDict?_sorted fun _ _ => toDict?_sorted fun p _ => p.ofValue_sorted

theorem receipts_back (r : Records) : toDict? ResponseReceipt.ofValue
    (ofDict ResponseReceipt.value r.receipts).sorted =
      some (PyJson.arranged ResponseReceipt.arranged r.receipts) :=
  toDict?_sorted fun p _ => p.ofValue_sorted

theorem attempts_back (r : Records) : toDict? Value.text? (ofDict Value.str r.attempts).sorted =
    some (PyJson.arranged id r.attempts) :=
  toDict?_sorted fun _ _ => rfl

theorem sortedSet_back (s : List Str) : (sortedSet s).sorted.texts? = some (setOf s) := by
  rw [sortedSet, sorted_texts, texts?_map]
  rfl

/-! ### Loading what was saved -/

variable {m : Machine} {r r' : Records} {text : Json}

theorem encode_ok (h : r.encode m = .ok text) : ∃ body,
    (record r.fields).canonical m.repr = .ok body ∧
      (record [("schema".toList, .str schema), ("records".toList, record r.fields),
        ("hmac".toList, .str (m.stateHmac body))]).canonical m.repr = .ok text :=
  bind_ok.mp h

theorem strict_record {fields : List (Str × Value)} (h : (record fields).strict = true)
    {f : Str × Value} (hf : f ∈ fields) : f.2.strict = true := by
  rw [record, Value.strict, strictItems_iff, List.forall_mem_map] at h
  exact (h f hf).2

theorem file_nodup (records hmac : Value) : ([("schema".toList, .str schema),
    ("records".toList, records), ("hmac".toList, hmac)].map Prod.fst).Nodup := by
  simp only [List.map_cons, List.map_nil]
  decide

/-- A named field of the records is read back sorted. -/
theorem field_back {fields : List (Str × Value)} (hn : (fields.map Prod.fst).Nodup)
    (hs : (record fields).strict = true) {j : Json}
    (hj : (record fields).dumps m.repr true = .ok j) : ∃ d, j.loads = .dict d ∧
      ∀ f ∈ fields, (∃ c, f.2.dumps m.repr true = .ok c ∧ getItem f.1 d = c.loads) ∧
        (f.2.named = true → getItem f.1 d = f.2.sorted) := by
  obtain ⟨d, hd, -, hget⟩ := loads_fields hn hj
  refine ⟨d, hd, fun f hf => ⟨hget f hf, fun hnamed => ?_⟩⟩
  obtain ⟨c, hc, hloads⟩ := hget f hf
  rw [hloads, (reads_named hnamed (strict_record hs hf) hc).2.1]

/-- The records that `_load_state` restores, field by field. -/
theorem restore_some {records : List (Key × Value)} (h : restore m records = some r) :
    toDict? (toDict? SignedPrincipalProof.ofValue) (getItem "approvals".toList records) =
        some r.approvals ∧
      toDict? Value.text? (getItem "attempts".toList records) = some r.attempts ∧
      (getItem "revoked_proposals".toList records).texts? = some r.revokedProposals ∧
      (getItem "revoked_keys".toList records).texts? = some r.revokedKeys ∧
      (getItem "revoked_subjects".toList records).texts? = some r.revokedSubjects := by
  obtain ⟨approvals, happrovals, h⟩ := Option.bind_eq_some_iff.mp h
  split at h
  · obtain ⟨receipts, -, h⟩ := Option.bind_eq_some_iff.mp h
    split at h
    · obtain ⟨attempts, hattempts, h⟩ := Option.bind_eq_some_iff.mp h
      obtain ⟨proposals, hproposals, h⟩ := Option.bind_eq_some_iff.mp h
      obtain ⟨keys, hkeys, h⟩ := Option.bind_eq_some_iff.mp h
      obtain ⟨subjects, hsubjects, h⟩ := Option.bind_eq_some_iff.mp h
      obtain rfl := Option.some.inj h
      exact ⟨happrovals, hattempts, hproposals, hkeys, hsubjects⟩
    · cases h
  · cases h

theorem dict?_some {v : Value} {items : List (Key × Value)} (h : v.dict? = some items) :
    v = .dict items := by
  cases v with
  | dict d =>
    obtain rfl := Option.some.inj h
    rfl
  | _ => cases h

/-- `_load_state` restores the authenticated records of the file. -/
theorem load_some (h : load m text = some r) : ∃ value records,
    text.loads = .dict value ∧ getItem "records".toList value = .dict records ∧
      restore m records = some r := by
  rw [load] at h
  split at h
  · cases h
  · obtain ⟨v, hv, hbind⟩ := Option.bind_eq_some_iff.mp h
    obtain ⟨value, hvalue, hbind⟩ := Option.bind_eq_some_iff.mp hbind
    obtain ⟨records, hrecords, hchecks⟩ := Option.bind_eq_some_iff.mp hbind
    have hloads : text.loads = v := by
      rw [Json.decode] at hv
      split at hv
      · exact Option.some.inj hv
      · cases hv
    split at hchecks
    · cases hchecks
    · obtain ⟨body, -, hchecks⟩ := Option.bind_eq_some_iff.mp hchecks
      split at hchecks
      · cases hchecks
      · exact ⟨value, records, hloads.trans (dict?_some hvalue), dict?_some hrecords, hchecks⟩

/-- CORRECT: whatever the receipts hold, the records that are restored from the text of `r` have
    the approvals, attempts and revocations of `r`. -/
theorem load_encode (he : r.encode m = .ok text) (h : load m text = some r') :
    r'.approvals = r.arranged.approvals ∧ r'.attempts = r.arranged.attempts ∧
      r'.revokedProposals = r.arranged.revokedProposals ∧
      r'.revokedKeys = r.arranged.revokedKeys ∧
      r'.revokedSubjects = r.arranged.revokedSubjects := by
  obtain ⟨body, hbody, htext⟩ := encode_ok he
  obtain ⟨hbs, hbody⟩ := canonical_ok.mp hbody
  obtain ⟨hts, htext⟩ := canonical_ok.mp htext
  obtain ⟨value, records, hvalue, hrecords, hrestore⟩ := load_some h
  obtain ⟨d, hd, hfile⟩ := field_back (file_nodup _ _) hts htext
  obtain rfl : d = value := Value.dict.inj (hd.symm.trans hvalue)
  obtain ⟨⟨c, hc, hget⟩, -⟩ := hfile _ (List.mem_of_getElem? (i := 1) rfl)
  obtain rfl := Except.ok.inj (hbody.symm.trans hc)
  obtain ⟨d', hd', hfields⟩ := field_back r.fields_nodup hbs hbody
  obtain rfl : d' = records := Value.dict.inj (hd'.symm.trans (hget.symm.trans hrecords))
  obtain ⟨h1, h2, h3, h4, h5⟩ := restore_some hrestore
  have hfield : ∀ (k : ℕ) (f : Str × Value), r.fields[k]? = some f → f.2.named = true →
      getItem f.1 d' = f.2.sorted := fun k f hf => (hfields f (List.mem_of_getElem? hf)).2
  rw [hfield 0 _ rfl r.approvals_named, approvals_back] at h1
  rw [hfield 2 _ rfl r.attempts_named, attempts_back] at h2
  rw [hfield 3 _ rfl (named_texts _), sortedSet_back] at h3
  rw [hfield 4 _ rfl (named_texts _), sortedSet_back] at h4
  rw [hfield 5 _ rfl (named_texts _), sortedSet_back] at h5
  exact ⟨(Option.some.inj h1).symm, (Option.some.inj h2).symm, (Option.some.inj h3).symm,
    (Option.some.inj h4).symm, (Option.some.inj h5).symm⟩

end Records

end Angerona.Response
