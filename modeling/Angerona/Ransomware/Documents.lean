import Angerona.Ransomware.ContentState

/-!
    The documents of the content-state store: how long they are, and that the records that are
    written are the ones that are read. -/

namespace Angerona.Ransomware
open Text PyJson Crash

/-! ### Lengths -/

theorem shortEscapes_not_hex : ∀ e ∈ shortEscapes, isHex e.1 = false := by decide

theorem isHex_range {c : Char} (h : isHex c = true) : 0x20 ≤ c.toNat ∧ c.toNat ≤ 0x7E := by
  rcases Bool.or_eq_true_iff.mp h with h | h
  · have hd : 48 ≤ c.toNat ∧ c.toNat ≤ 57 := Char.isDigit_iff_toNat.mp h
    omega
  · obtain ⟨ha, hf⟩ := Bool.and_eq_true_iff.mp h
    have ha' : 97 ≤ c.toNat := of_decide_eq_true ha
    have hf' : c.toNat ≤ 102 := of_decide_eq_true hf
    omega

theorem length_escaped {c : Char} (h : isHex c = true) : (escaped true c).length = 1 := by
  have hnone : shortEscapes.find? (·.1 = c) = none := by
    rw [List.find?_eq_none]
    intro e he hc
    have hno := shortEscapes_not_hex e he
    rw [of_decide_eq_true hc, h] at hno
    cases hno
  have hplain : isPlain true c = true :=
    decide_eq_true ⟨(isHex_range h).1, fun _ => (isHex_range h).2⟩
  rw [escaped, hnone, Option.elim_none, if_pos hplain, List.length_singleton]

theorem length_quoted {s : Str} (h : isHexDigest s = true) : (quoted true s).length = 66 := by
  obtain ⟨hlength, hhex⟩ := Bool.and_eq_true_iff.mp h
  have hone : ∀ c ∈ s, (escaped true c).length = 1 := fun c hc =>
    length_escaped (List.all_eq_true.mp hhex c hc)
  rw [quoted, List.length_append, List.length_cons, List.length_flatMap, List.map_congr_left hone,
    List.map_const', List.sum_replicate, eq_of_beq hlength]
  rfl

/-- The length of a member, with its separators. -/
def memberLength (m : String × Json) : ℕ :=
  (quoted true m.1.toList).length + (m.2.text (fun _ => []) ⟨true, 0⟩).length + 2

theorem length_textMembers (members : List (String × Json)) : ∀ first : Bool,
    (textMembers (fun _ => []) ⟨true, 0⟩ first (members.map fun m => (m.1.toList, m.2))).length +
      (if first = true ∧ members ≠ [] then 1 else 0) = (members.map memberLength).sum := by
  induction members with
  | nil =>
    intro first
    simp [textMembers]
  | cons m members ih =>
    intro first
    have hrest := ih false
    rw [if_neg (by simp), Nat.add_zero] at hrest
    have hsum : ((m :: members).map memberLength).sum =
        memberLength m + (members.map memberLength).sum := List.sum_cons
    rw [hsum, ← hrest, List.map_cons, textMembers, memberLength]
    cases first with
    | true => simp [Layout.separator]; omega
    | false => simp [Layout.separator]; omega

theorem payloadLength_eq {m : String × Json} {members : List (String × Json)} :
    payloadLength (m :: members) = memberLength m + (members.map memberLength).sum + 1 := by
  have hall := length_textMembers (m :: members) true
  rw [if_pos ⟨rfl, List.cons_ne_nil _ _⟩, List.map_cons (f := memberLength), List.sum_cons] at hall
  rw [payloadLength, Json.text, List.length_cons, List.length_append, List.length_singleton]
  omega

theorem memberLength_digest (name : String) {s : Str} (h : isHexDigest s = true) :
    memberLength (name, .str s) = (quoted true name.toList).length + 68 := by
  rw [memberLength, Json.text, length_quoted h]

theorem memberLength_le (name name' : String) (j : Json)
    (h : (quoted true name.toList).length ≤ (quoted true name'.toList).length) :
    memberLength (name, j) ≤ memberLength (name', j) := by
  simp only [memberLength]
  omega

theorem isHexDigest_zeroHead : isHexDigest zeroHead = true := by decide +kernel

section Documents

variable {K : Type} (A : Signer K) (k : K)

/-- The witness of a position is no longer than a transition to it. -/
theorem witness_bytes_le (old new : Position) :
    (Witness.signed A k new).bytes ≤ (TransitionDoc.signed A k old new).bytes := by
  have hmac := (memberLength_digest "hmac_sha256" (A.witnessMac k (A.installId k) new).2).trans
    (memberLength_digest "hmac_sha256" (A.transitionMac k ⟨(A.installId k).val, old, new⟩).2).symm
  have hepoch := memberLength_le "scan_epoch" "new_scan_epoch"
    (.int new.scanEpoch) (by decide +kernel)
  have hsequence := memberLength_le "sequence" "new_sequence"
    (.int new.sequence) (by decide +kernel)
  have hhead := memberLength_le "state_hmac" "new_state_hmac"
    (.str new.head) (by decide +kernel)
  have hschema : memberLength ("schema", .str "angerona.ransomware-content-witness.v1".toList) ≤
      memberLength ("schema", .str "angerona.ransomware-content-transition.v1".toList) := by
    decide +kernel
  rw [Witness.bytes, TransitionDoc.bytes, payloadLength_eq, payloadLength_eq]
  simp only [List.map_cons, List.map_nil, List.sum_cons, List.sum_nil, TransitionDoc.signed,
    Witness.signed]
  omega

/-- The transition of a first enrollment is within its bound. -/
theorem genesis_bytes_le {head : Str} (hhead : isHexDigest head = true) :
    (TransitionDoc.signed A k .origin ⟨0, 0, head⟩).bytes ≤ maxTransitionBytes := by
  have hmac := memberLength_digest "hmac_sha256"
    (A.transitionMac k ⟨(A.installId k).val, .origin, ⟨0, 0, head⟩⟩).2
  have hinstall := memberLength_digest "install_id" (A.installId k).2
  have hnew := memberLength_digest "new_state_hmac" hhead
  have hold := memberLength_digest "old_state_hmac" isHexDigest_zeroHead
  have hnames : (quoted true "hmac_sha256".toList).length + (quoted true "install_id".toList).length +
      (quoted true "new_state_hmac".toList).length +
      (quoted true "old_state_hmac".toList).length + memberLength ("new_scan_epoch", .int 0) +
      memberLength ("new_sequence", .int 0) + memberLength ("old_scan_epoch", .int (-1)) +
      memberLength ("old_sequence", .int (-1)) +
      memberLength ("schema", .str "angerona.ransomware-content-transition.v1".toList) ≤ 1000 := by
    decide +kernel
  rw [TransitionDoc.bytes, payloadLength_eq]
  simp only [List.map_cons, List.map_nil, List.sum_cons, List.sum_nil, TransitionDoc.signed,
    Position.origin, maxTransitionBytes] at hmac ⊢
  omega

/-- The empty state is within its bound. -/
theorem empty_bytes_le : (StateDoc.signed A k (.current 0 0 [])).bytes ≤ maxStateBytes := by
  have hmac := memberLength_digest "hmac_sha256" (A.stateMac k (.current 0 0 [])).2
  have hnames : (quoted true "hmac_sha256".toList).length + memberLength ("records", .arr []) +
      memberLength ("scan_epoch", .int 0) +
      memberLength ("schema", .str Schema.current.text.toList) + memberLength ("sequence", .int 0) ≤
      1000 := by
    decide +kernel
  rw [StateDoc.bytes]
  change payloadLength (("hmac_sha256", .str _) :: [("records", .arr []), ("scan_epoch", .int 0),
    ("schema", .str Schema.current.text.toList), ("sequence", .int 0)]) ≤ _
  rw [payloadLength_eq]
  simp only [List.map_cons, List.map_nil, List.sum_cons, List.sum_nil, StateDoc.signed,
    maxStateBytes] at hmac ⊢
  omega

theorem StateDoc.bytes_pos (d : StateDoc) : 0 < d.bytes := by
  rw [StateDoc.bytes, List.append_assoc, List.cons_append, payloadLength_eq]
  omega

theorem Witness.bytes_pos (w : Witness) : 0 < w.bytes := by
  rw [Witness.bytes, payloadLength_eq]
  omega

theorem TransitionDoc.bytes_pos (t : TransitionDoc) : 0 < t.bytes := by
  rw [TransitionDoc.bytes, payloadLength_eq]
  omega

end Documents

/-! ### Records -/

/-- Every record is valid and stands under its own key. -/
def Receipts.Valid (d : Receipts) : Prop := ∀ i ∈ d.items, i.2.key = i.1 ∧ i.2.valid = true

/-- Records in the order of their keys, each valid and no more than the store takes. -/
structure Recorded (rows : List Row) : Prop where
  sorted : (rows.map Row.key).Pairwise (· < ·)
  valid : ∀ r ∈ rows, r.valid = true
  count : rows.length ≤ maxRecords

theorem foldlM_receipts {rows : List Row} (hvalid : ∀ r ∈ rows, r.valid = true) :
    ∀ {d : Receipts}, (d.items.map Prod.fst ++ rows.map Row.key).Nodup →
      ∃ d' : Receipts, rows.foldlM (fun records row =>
          if row.valid = true ∧ (records.get? row.key).isNone = true then
            Except.ok (records.set row.key row)
          else .error (Fault.os "durable content-state record failed validation")) d = .ok d' ∧
        d'.items = d.items ++ rows.map fun r => (r.key, r) := by
  induction rows with
  | nil =>
    intro d _
    exact ⟨d, rfl, (List.append_nil _).symm⟩
  | cons r rows ih =>
    intro d hnodup
    have hfresh : r.key ∉ d.items.map Prod.fst := fun h =>
      (List.nodup_append.mp hnodup).2.2 _ h _ List.mem_cons_self rfl
    have hnone : (d.get? r.key).isNone = true := by
      rw [Option.isNone_iff_eq_none, ← Option.not_isSome_iff_eq_none, ← Dict.mem_keys]
      exact hfresh
    have hset : (d.set r.key r).items = d.items ++ [(r.key, r)] := Dict.put_fresh hfresh
    have hnodup' : ((d.set r.key r).items.map Prod.fst ++ rows.map Row.key).Nodup := by
      rw [hset, List.map_append, List.append_assoc]
      exact hnodup
    obtain ⟨d', hd', hitems⟩ := ih (fun s hs => hvalid s (List.mem_cons_of_mem _ hs)) hnodup'
    refine ⟨d', ?_, ?_⟩
    · rw [List.foldlM_cons, if_pos ⟨hvalid r List.mem_cons_self, hnone⟩]
      exact hd'
    · rw [hitems, hset, List.append_assoc]
      rfl

/-- The loader takes valid records whose keys are distinct. -/
theorem receiptsOf_ok {rows : List Row} (hvalid : ∀ r ∈ rows, r.valid = true)
    (hnodup : (rows.map Row.key).Nodup) :
    ∃ d : Receipts, receiptsOf rows = .ok d ∧ d.items = rows.map fun r => (r.key, r) :=
  foldlM_receipts hvalid (d := .empty) hnodup

theorem valid_of_items {rows : List Row} {d : Receipts} (hvalid : ∀ r ∈ rows, r.valid = true)
    (h : d.items = rows.map fun r => (r.key, r)) : Receipts.Valid d := by
  intro i hi
  rw [h] at hi
  obtain ⟨r, hr, rfl⟩ := List.mem_map.mp hi
  exact ⟨rfl, hvalid r hr⟩

/-- Records that were read in order are written as they were read. -/
theorem ordered_of_items {rows : List Row} {d : Receipts} (hsorted : (rows.map Row.key).Pairwise (· < ·))
    (h : d.items = rows.map fun r => (r.key, r)) : ordered d = rows := by
  have hfst : (d.items.map Prod.fst).Pairwise (· < ·) := by
    rw [h, List.map_map]
    exact hsorted
  rw [ordered, sort_of_perm (List.Perm.refl _) hfst, h, List.map_map]
  exact List.map_id rows

theorem ordered_keys {d : Receipts} (h : Receipts.Valid d) :
    (ordered d).map Row.key = (d.items.insertionSort textLe).map Prod.fst := by
  rw [ordered, List.map_map]
  exact List.map_congr_left fun i hi =>
    (h i ((List.perm_insertionSort textLe _).mem_iff.mp hi)).1

/-- What is written of valid receipts. -/
theorem ordered_recorded {d : Receipts} (h : Receipts.Valid d) (hsize : d.size ≤ maxRecords) :
    Recorded (ordered d) := by
  refine ⟨?_, ?_, ?_⟩
  · rw [ordered_keys h]
    have hle := (List.pairwise_insertionSort textLe d.items).map Prod.fst fun _ _ => textLe_iff.mp
    have hnodup : ((d.items.insertionSort textLe).map Prod.fst).Nodup :=
      (((List.perm_insertionSort textLe _).map Prod.fst).nodup_iff).mpr d.nodup
    exact (hle.and hnodup).imp fun h => lt_of_le_of_ne h.1 h.2
  · intro r hr
    obtain ⟨i, hi, rfl⟩ := List.mem_map.mp hr
    exact (h i ((List.perm_insertionSort textLe _).mem_iff.mp hi)).2
  · rw [ordered, List.length_map, List.length_insertionSort]
    exact hsize

end Angerona.Ransomware
