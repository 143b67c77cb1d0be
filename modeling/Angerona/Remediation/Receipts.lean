import Angerona.Lib.PyJson

/-!
    Proof receipts for remediation actions.

    A receipt is a dictionary of plain fields: a digest of the action record, the hash of the
    receipt before it, and an HMAC over everything else. It is checked after both the receipt and
    the record have been through the database as JSON texts. -/

namespace Angerona.Remediation
open Text PyJson Raising

/-- `float.__repr__`, SHA-256 and HMAC under the install key, on the texts they are applied to.
    Secrets are numbers. -/
structure Platform where
  repr : Double → Str
  /-- The hexadecimal digest of a canonical text. -/
  sha256 : Json → Str
  sha256_length : ∀ text, (sha256 text).length = 64
  /-- The hexadecimal tag of a canonical text. -/
  hmac : Json → Str
  hmac_length : ∀ text, (hmac text).length = 64
  /-- The hexadecimal digest of a retained transaction record, as stored. -/
  storedSha256 : Json → Str
  /-- The digest of an owner secret. -/
  ownerDigest : ℕ → Str
  /-- The digest of a recovery secret, bound to a transaction and a record digest. -/
  recoveryDigest : ℤ → Str → ℕ → Str

abbrev Dict := List (Key × Value)

def receiptVersion : ℤ := 1
def genesisHash : Str := List.replicate 64 '0'

/-- `SIG_FIELD`. -/
def sigField : Str := "_angerona_hmac".toList

variable (P : Platform)

/-- `_canonical`, of both modules. -/
def canonical (v : Value) : Except JsonError Json := v.dumps P.repr true

/-- `value or {}`. -/
def orEmpty : Value → Value
  | .null | .bool false | .int 0 | .str [] | .list [] => .dict []
  | .float (.finite d) => if d.val = 0 then .dict [] else .float (.finite d)
  | v => v

/-- `record_digest`. -/
def recordDigest (record : Value) : Except JsonError Str :=
  (canonical P (orEmpty record)).map P.sha256

/-- `receipt_hash`. -/
def receiptHash (receipt : Value) : Except JsonError Str := (canonical P receipt).map P.sha256

/-! ### Attestation -/

def unsigned (doc : Dict) : Dict := doc.filter fun item => item.1 ≠ .str sigField

/-- `sign_doc`, with the key at hand. -/
def signDoc (doc : Dict) : Except JsonError Str :=
  (canonical P (.dict (unsigned doc))).map P.hmac

/-- `attest`. -/
def attest (doc : Dict) : Except JsonError Dict :=
  (signDoc P doc).map fun sig => setItem (.str sigField) (.str sig) doc

/-- `report_attest.verify`, with the key at hand. A signature that is not a text never matches. -/
def authenticity (doc : Dict) : Except JsonError Str :=
  match getItem sigField doc with
  | .null | .str [] => .ok "unsigned".toList
  | .str sig => (signDoc P doc).map fun expected =>
      if sig = expected then "ok".toList else "bad".toList
  | _ => (signDoc P doc).map fun _ => "bad".toList

/-! ### Creating a receipt -/

/-- The arguments of `create_receipt`, the random part of the receipt's identity among them. -/
structure ReceiptArgs where
  ts : PyFloat
  uuid : Str
  trigger : Str
  mitre : Str
  actionKey : Str
  outcome : Str
  verified : ℤ
  hostLevel : Bool
  record : Value
  previousHash : Str

/-- `text or default`. -/
def orText (s default : Str) : Str := if s = [] then default else s

def verificationText (verified : ℤ) : Str :=
  if verified = 1 then "passed".toList
  else if verified = 0 then "failed".toList
  else "not-run".toList

/-- The chain pointer a receipt gets. -/
def ReceiptArgs.previous (args : ReceiptArgs) : Str :=
  if args.previousHash.length ≠ 64 then genesisHash else args.previousHash

/-- The body of a receipt. -/
def ReceiptArgs.fields (args : ReceiptArgs) (digest : Str) : List (Str × Value) :=
  [("receipt_version".toList, .int receiptVersion),
    ("receipt_id".toList, .str ("RCP-".toList ++ args.uuid)),
    ("ts".toList, .float args.ts),
    ("trigger".toList, .str (args.trigger.take 256)),
    ("mitre".toList, .str ((orText args.mitre "-".toList).take 32)),
    ("action_key".toList, .str ((orText args.actionKey "none".toList).take 128)),
    ("outcome".toList, .str ((orText args.outcome "unknown".toList).take 64)),
    ("verification".toList, .str (verificationText args.verified)),
    ("host_level".toList, .bool args.hostLevel),
    ("action_record_sha256".toList, .str digest),
    ("previous_receipt_hash".toList, .str args.previous)]

/-- `create_receipt`. -/
def createReceipt (args : ReceiptArgs) : Except JsonError (Dict × Str) := do
  let digest ← recordDigest P args.record
  let receipt ← attest P ((args.fields digest).map strItem)
  let hash ← receiptHash P (.dict receipt)
  .ok (receipt, hash)

/-! ### Verifying a receipt -/

/-- `ReceiptVerification`. -/
structure Verification where
  valid : Bool
  reason : Str
  hash : Str
  deriving DecidableEq

/-- `value == n`. -/
def isInt (n : ℤ) : Value → Bool
  | .int m => m = n
  | .bool b => (if b then 1 else 0) = n
  | .float (.finite d) => d.val = n * 2 ^ Double.unitExponent
  | _ => false

/-- `value == text`. -/
def isText (s : Str) : Value → Bool
  | .str t => t = s
  | _ => false

/-- `verify_receipt`. -/
def verifyReceipt (receipt record : Value) (expectedPrevious storedHash : Str) :
    Except JsonError Verification :=
  match receipt with
  | .dict doc => do
    let actual ← receiptHash P receipt
    let digest ← recordDigest P record
    let authentic ← authenticity P doc
    let fail (reason : Str) : Except JsonError Verification := .ok ⟨false, reason, actual⟩
    if storedHash ≠ [] ∧ storedHash ≠ actual then
      fail "stored receipt hash does not match".toList
    else if ¬isInt receiptVersion (getItem "receipt_version".toList doc) then
      fail "unsupported receipt version".toList
    else if ¬isText expectedPrevious (getItem "previous_receipt_hash".toList doc) then
      fail "receipt chain link is broken".toList
    else if ¬isText digest (getItem "action_record_sha256".toList doc) then
      fail "action record digest does not match".toList
    else if authentic ≠ "ok".toList then
      fail ("receipt authenticity is ".toList ++ authentic)
    else if isText "applied".toList (getItem "outcome".toList doc) ∧
        ¬isText "passed".toList (getItem "verification".toList doc) then
      fail "an applied action lacks a passed postcondition".toList
    else .ok ⟨true, "verified".toList, actual⟩
  | _ => .ok ⟨false, "receipt is not an object".toList, []⟩

/-! ### A created receipt verifies -/

section Created

variable {P : Platform} {args : ReceiptArgs} {digest sig hash : Str}

/-- A receipt is its body and the signature. -/
def ReceiptArgs.signed (args : ReceiptArgs) (digest sig : Str) : List (Str × Value) :=
  args.fields digest ++ [(sigField, .str sig)]

theorem ReceiptArgs.names (args : ReceiptArgs) (digest sig : Str) :
    (args.signed digest sig).map Prod.fst =
      ["receipt_version", "receipt_id", "ts", "trigger", "mitre", "action_key", "outcome",
        "verification", "host_level", "action_record_sha256", "previous_receipt_hash",
        "_angerona_hmac"].map String.toList := rfl

theorem ReceiptArgs.nodup (args : ReceiptArgs) (digest sig : Str) :
    ((args.signed digest sig).map Prod.fst).Nodup := by
  rw [args.names]
  decide

theorem ReceiptArgs.plain (args : ReceiptArgs) (digest sig : Str) :
    ∀ f ∈ args.signed digest sig, f.2.plain = true := by
  have hversion : tooLong receiptVersion = false := by decide
  simp [signed, fields, Value.plain, hversion]

theorem ReceiptArgs.plain_fields (args : ReceiptArgs) (digest : Str) :
    ∀ f ∈ args.fields digest, f.2.plain = true :=
  fun f hf => args.plain digest [] f (List.mem_append_left _ hf)

theorem ReceiptArgs.nodup_fields (args : ReceiptArgs) (digest : Str) :
    ((args.fields digest).map Prod.fst).Nodup := by
  have h := args.nodup digest []
  rw [signed, List.map_append] at h
  exact (List.nodup_append.mp h).1

theorem ReceiptArgs.name_ne {f : Str × Value} (hf : f ∈ args.fields digest) : f.1 ≠ sigField := by
  have hn := args.nodup digest []
  rw [signed, List.map_append] at hn
  exact (List.nodup_append.mp hn).2.2 f.1 (List.mem_map_of_mem hf) sigField List.mem_cons_self

/-- Dropping the signature leaves the body, in whatever order the fields are. -/
theorem unsigned_perm {fields : List (Str × Value)} (h : fields.Perm (args.signed digest sig)) :
    ∃ body : List (Str × Value), unsigned (fields.map strItem) = body.map strItem ∧
      body.Perm (args.fields digest) := by
  refine ⟨fields.filter fun f => f.1 ≠ sigField, ?_, ?_⟩
  · rw [unsigned, List.filter_map]
    congr 1
    refine List.filter_congr fun f _ => ?_
    simp [strItem]
  · refine (h.filter _).trans (List.Perm.of_eq ?_)
    rw [ReceiptArgs.signed, List.filter_append, List.filter_cons_of_neg (by simp), List.filter_nil,
      List.append_nil]
    exact List.filter_eq_self.mpr fun f hf => by simpa using ReceiptArgs.name_ne hf

theorem signDoc_perm {fields : List (Str × Value)} (h : fields.Perm (args.signed digest sig)) :
    signDoc P (fields.map strItem) =
      (canonical P (record (args.fields digest))).map P.hmac := by
  obtain ⟨body, hbody, hperm⟩ := unsigned_perm h
  rw [signDoc, hbody, canonical, canonical,
    dumps_record_perm hperm.symm (args.plain_fields digest) (args.nodup_fields digest)]
  rfl

/-- What a created receipt is. -/
theorem createReceipt_ok {receipt : Dict} (h : createReceipt P args = .ok (receipt, hash)) :
    ∃ digest sig, recordDigest P args.record = .ok digest ∧
      (canonical P (record (args.fields digest))).map P.hmac = .ok sig ∧
      .dict receipt = record (args.signed digest sig) ∧
      receiptHash P (record (args.signed digest sig)) = .ok hash := by
  obtain ⟨digest, hdigest, h⟩ := bind_ok.mp h
  obtain ⟨receipt', hattest, h⟩ := bind_ok.mp h
  obtain ⟨hash', hhash, h⟩ := bind_ok.mp h
  obtain ⟨rfl, rfl⟩ := Prod.mk.inj (Except.ok.inj h)
  obtain ⟨sig, hsig, rfl⟩ := map_ok.mp hattest
  have hreceipt : Value.dict (setItem (.str sigField) (.str sig)
      ((args.fields digest).map strItem)) = record (args.signed digest sig) := by
    rw [setItem_fresh, record, ReceiptArgs.signed, List.map_append]
    · rfl
    · rw [List.map_map]
      intro hmem
      obtain ⟨f, hf, hname⟩ := List.mem_map.mp hmem
      exact ReceiptArgs.name_ne hf (Key.str.inj hname)
  refine ⟨digest, sig, hdigest, ?_, hreceipt, hreceipt ▸ hhash⟩
  have hfields : unsigned ((args.fields digest).map strItem) = (args.fields digest).map strItem := by
    refine List.filter_eq_self.mpr fun item hitem => ?_
    obtain ⟨f, hf, rfl⟩ := List.mem_map.mp hitem
    simpa [strItem] using ReceiptArgs.name_ne hf
  rw [signDoc, hfields] at hsig
  exact hsig

/-- An application recorded without a passed postcondition. -/
def unproven (outcome : Str) (verified : ℤ) : Bool := outcome = "applied".toList ∧ verified ≠ 1

theorem outcome_applied (outcome : Str) :
    (orText outcome "unknown".toList).take 64 = "applied".toList ↔ outcome = "applied".toList := by
  rw [orText]
  split
  · rename_i h
    subst h
    decide
  · refine ⟨fun h => ?_, fun h => by rw [h]; decide⟩
    have hlen := congrArg List.length h
    rw [List.length_take, show "applied".toList.length = 7 from rfl] at hlen
    rwa [List.take_of_length_le (by omega)] at h

theorem verificationText_passed (verified : ℤ) :
    verificationText verified = "passed".toList ↔ verified = 1 := by
  rw [verificationText]
  split
  · simp [*]
  · rename_i h
    simp only [h, iff_false]
    split
    · decide
    · decide

/-- CORRECT: a created receipt, dumped and loaded, verifies against any record with the digest of
    the original one, unless it records an application that was not verified. -/
theorem verifyReceipt_created {receipt : Dict} {text : Json} {stored : Value}
    (h : createReceipt P args = .ok (receipt, hash))
    (htext : (Value.dict receipt).dumps P.repr true = .ok text)
    (hrecord : recordDigest P stored = recordDigest P args.record) :
    verifyReceipt P text.loads stored args.previous hash =
      .ok ⟨!unproven args.outcome args.verified,
        if unproven args.outcome args.verified then
          "an applied action lacks a passed postcondition".toList else "verified".toList, hash⟩ := by
  obtain ⟨digest, sig, hdigest, hsig, hreceipt, hhash⟩ := createReceipt_ok h
  rw [hreceipt] at htext
  rw [loads_record (args.plain digest sig) (args.nodup digest sig) htext]
  generalize hf : (args.signed digest sig).insertionSort textLe = fields
  have hperm : fields.Perm (args.signed digest sig) := hf ▸ List.perm_insertionSort _ _
  have hn : (fields.map Prod.fst).Nodup :=
    (hperm.map Prod.fst).nodup_iff.mpr (args.nodup digest sig)
  have hactual : receiptHash P (record fields) = .ok hash := by
    rw [← hhash, receiptHash, receiptHash, canonical, canonical,
      dumps_record_perm hperm.symm (args.plain digest sig) (args.nodup digest sig)]
  have hget : ∀ {name : Str} {v : Value}, (name, v) ∈ args.signed digest sig →
      getItem name (fields.map strItem) = v :=
    fun {_ _} hmem => getItem_record hn (hperm.mem_iff.mpr hmem)
  have hauth : authenticity P (fields.map strItem) = .ok "ok".toList := by
    have hne : sig ≠ [] := by
      obtain ⟨text, -, rfl⟩ := map_ok.mp hsig
      intro hnil
      have := P.hmac_length text
      rw [hnil] at this
      simp at this
    rw [authenticity, hget (List.mem_append_right _ (List.mem_singleton_self (sigField, Value.str sig)))]
    split
    · rename_i he
      simp at he
    · rename_i he
      exact absurd (Value.str.inj he) hne
    · rename_i s _ he
      obtain rfl := Value.str.inj he
      rw [signDoc_perm hperm, hsig]
      simp [Except.map]
    · rename_i he
      exact absurd rfl (he sig)
  have hfield : ∀ (i : ℕ) {name : Str} {v : Value}, (args.fields digest)[i]? = some (name, v) →
      getItem name (fields.map strItem) = v :=
    fun i {_ _} hi => hget (List.mem_append_left _ (List.mem_of_getElem? hi))
  have hversion : getItem "receipt_version".toList (fields.map strItem) = .int receiptVersion :=
    hfield 0 rfl
  have hprevious : getItem "previous_receipt_hash".toList (fields.map strItem) =
      .str args.previous := hfield 10 rfl
  have hbound : getItem "action_record_sha256".toList (fields.map strItem) = .str digest :=
    hfield 9 rfl
  have houtcome : getItem "outcome".toList (fields.map strItem) =
      .str ((orText args.outcome "unknown".toList).take 64) := hfield 6 rfl
  have hpassed : getItem "verification".toList (fields.map strItem) =
      .str (verificationText args.verified) := hfield 7 rfl
  have hclaim : (isText "applied".toList (.str ((orText args.outcome "unknown".toList).take 64)) ∧
      ¬isText "passed".toList (.str (verificationText args.verified))) ↔
      unproven args.outcome args.verified = true := by
    rw [isText, isText, unproven, decide_eq_true_eq, decide_eq_true_eq, decide_eq_true_eq,
      outcome_applied, verificationText_passed]
  rw [show record fields = .dict (fields.map strItem) from rfl] at hactual ⊢
  rw [verifyReceipt, hactual, hrecord, hdigest, hauth]
  simp only [bind, Except.bind, hversion, hprevious, hbound, houtcome, hpassed]
  rw [if_neg (fun hne => hne.2 rfl), if_neg (by simp [isInt]), if_neg (by simp [isText]),
    if_neg (by simp [isText]), if_neg (fun hne => hne rfl)]
  split
  · rename_i hbad
    rw [hclaim.mp hbad]
    rfl
  · rename_i hgood
    rw [Bool.eq_false_iff.mpr fun hu => hgood (hclaim.mpr hu)]
    rfl

end Created

end Angerona.Remediation
