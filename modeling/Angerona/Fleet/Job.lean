import Angerona.Lib.PyJson

/-!
    Fleet jobs (`core/fleet_jobs.py`): the specification a job carries, the text it is stored as,
    and the job that this text is read back to. -/

namespace Angerona.Fleet
open Text PyJson Raising

/-! ### Formats -/

/-- `_ID`. -/
def isId : Str → Bool
  | [] => false
  | c :: cs => c.isAlphanum ∧ 7 ≤ cs.length ∧ cs.length ≤ 127 ∧
      cs.all fun c => c.isAlphanum ∨ c ∈ "._:-".toList

/-- `_OPERATION`. -/
def isOperation : Str → Bool
  | [] => false
  | c :: cs => c.isLower ∧ 2 ≤ cs.length ∧ cs.length ≤ 79 ∧
      cs.all fun c => c.isLower ∨ c.isDigit ∨ c ∈ "_.-".toList

inductive State where
  | created | staged | approved | dispatched | running
  | succeeded | failed | cancelled | expired
  deriving DecidableEq, Repr

/-- `_TRANSITIONS`. -/
def State.next : State → List State
  | .created => [.staged, .cancelled, .expired]
  | .staged => [.approved, .cancelled, .expired]
  | .approved => [.dispatched, .cancelled, .expired]
  | .dispatched => [.running, .failed, .cancelled, .expired]
  | .running => [.succeeded, .failed, .cancelled, .expired]
  | _ => []

/-- `_TERMINAL`. -/
def State.terminal : State → Bool
  | .succeeded | .failed | .cancelled | .expired => true
  | _ => false

/-! ### Specifications -/

structure Machine where
  /-- `float.__repr__`. -/
  repr : Double → Str
  /-- `hashlib.sha256(text).hexdigest()`. -/
  sha256 : Json → Str

structure JobTarget where
  deviceIds : List Str
  groupIds : List Str
  requiredTags : List Str
  maxHosts : ℤ

/-- `JobTarget.__post_init__` accepts. -/
def JobTarget.valid (t : JobTarget) : Bool :=
  1 ≤ t.maxHosts ∧ t.maxHosts ≤ 10000 ∧ ¬(t.deviceIds = [] ∧ t.groupIds = []) ∧
    [t.deviceIds, t.groupIds, t.requiredTags].all fun ids => ids.length ≤ 256 ∧ ids.all isId

structure FleetJob where
  jobId : Str
  idempotencyKey : Str
  operationId : Str
  arguments : List (Key × Value)
  target : JobTarget
  createdAt : Double
  expiresAt : Double
  dryRun : Bool
  approvalDigest : Str

/-- `_canonical`. -/
def Machine.canonical (m : Machine) (v : Value) : Except JsonError Json := v.dumps m.repr true

def JobTarget.fields (t : JobTarget) : List (Str × Value) :=
  [("device_ids".toList, .list (t.deviceIds.map .str)),
    ("group_ids".toList, .list (t.groupIds.map .str)),
    ("required_tags".toList, .list (t.requiredTags.map .str)),
    ("max_hosts".toList, .int t.maxHosts)]

def FleetJob.fields (j : FleetJob) : List (Str × Value) :=
  [("job_id".toList, .str j.jobId), ("idempotency_key".toList, .str j.idempotencyKey),
    ("operation_id".toList, .str j.operationId), ("arguments".toList, .dict j.arguments),
    ("target".toList, record j.target.fields), ("created_at".toList, .float (.finite j.createdAt)),
    ("expires_at".toList, .float (.finite j.expiresAt)), ("dry_run".toList, .bool j.dryRun),
    ("approval_digest".toList, .str j.approvalDigest)]

/-- `to_dict()`. -/
def FleetJob.toDict (j : FleetJob) : Value := record j.fields

/-- `_MAX_SPEC_BYTES`. -/
def maxSpecBytes : ℕ := 64 * 1024

def sevenDays : Double := Double.ofNat (7 * 86400) (by decide)

/-- `_canonical(value)`, when it is within `_MAX_SPEC_BYTES`. -/
def Machine.bounded (m : Machine) (v : Value) : Option Json :=
  match m.canonical v with
  | .ok t => if t.utf8Length m.repr ≤ maxSpecBytes then some t else none
  | .error _ => none

/-- `FleetJob.__post_init__` accepts; the target has passed its own. -/
def FleetJob.valid (m : Machine) (j : FleetJob) : Bool :=
  j.target.valid ∧ isId j.jobId ∧ isId j.idempotencyKey ∧ isOperation j.operationId ∧ j.arguments.length ≤ 64 ∧
    (j.createdAt < j.expiresAt ∧ (j.createdAt.add sevenDays).all fun d => j.expiresAt ≤ d) ∧
    (j.dryRun ∨ isHex 64 j.approvalDigest) ∧ (m.bounded j.toDict).isSome

/-- The stored text of a valid job. -/
def FleetJob.spec (m : Machine) (j : FleetJob) : Option Json := m.bounded j.toDict

/-- `digest`. -/
def FleetJob.digest (m : Machine) (j : FleetJob) : Option Str := (j.spec m).map m.sha256

/-! ### Reading back -/

def text : Value → Option Str
  | .str s => some s
  | _ => none

def texts : Value → Option (List Str)
  | .list xs => xs.mapM text
  | _ => none

/-- `JobTarget(**raw)`. -/
def JobTarget.ofDict : Value → Option JobTarget
  | .dict d => do
    let t : JobTarget :=
      { deviceIds := ← texts (getItem "device_ids".toList d)
        groupIds := ← texts (getItem "group_ids".toList d)
        requiredTags := ← texts (getItem "required_tags".toList d)
        maxHosts := ← match getItem "max_hosts".toList d with
          | .int n => some n
          | _ => none }
    if t.valid then some t else none
  | _ => none

def finite : Value → Option Double
  | .float (.finite d) => some d
  | _ => none

/-- The job of `_decode`; `none` when a class refuses the stored values. -/
def FleetJob.ofSpec (m : Machine) (spec : Json) : Option FleetJob :=
  match spec.loads with
  | .dict d => do
    let j : FleetJob :=
      { jobId := ← text (getItem "job_id".toList d)
        idempotencyKey := ← text (getItem "idempotency_key".toList d)
        operationId := ← text (getItem "operation_id".toList d)
        arguments := ← match getItem "arguments".toList d with
          | .dict items => some items
          | _ => none
        target := ← JobTarget.ofDict (getItem "target".toList d)
        createdAt := ← finite (getItem "created_at".toList d)
        expiresAt := ← finite (getItem "expires_at".toList d)
        dryRun := ← match getItem "dry_run".toList d with
          | .bool b => some b
          | _ => none
        approvalDigest := ← text (getItem "approval_digest".toList d) }
    if j.valid m then some j else none
  | _ => none

/-- The stored text of a job is read back to a job with the same digest. -/
def FleetJob.Reloads (m : Machine) (job : FleetJob) : Prop :=
  ∃ spec job', job.spec m = some spec ∧ FleetJob.ofSpec m spec = some job' ∧
    job'.digest m = job.digest m

/-! ### Jobs that are read back -/

variable {m : Machine}

theorem bounded_some {v : Value} {t : Json} : m.bounded v = some t ↔
    v.dumps m.repr true = .ok t ∧ t.utf8Length m.repr ≤ maxSpecBytes := by
  rw [Machine.bounded, Machine.canonical]
  constructor
  · intro h
    split at h
    · rename_i t' ht
      split at h
      · rename_i hle
        obtain rfl := Option.some.inj h
        exact ⟨ht, hle⟩
      · cases h
    · cases h
  · rintro ⟨ht, hle⟩
    rw [ht]
    exact if_pos hle

theorem scalar_back {v x : Value} (h : ∃ c, v.dumps m.repr true = .ok c ∧ x = c.loads)
    (hv : v.scalar = true) : x = v := by
  obtain ⟨c, hc, rfl⟩ := h
  exact loads_scalar hv hc

theorem mapM_text (xs : List Str) : (xs.map Value.str).mapM text = some xs := by
  induction xs with
  | nil => rfl
  | cons x xs ih =>
    rw [List.map_cons, List.mapM_cons, ih]
    rfl

theorem texts_back {xs : List Str} {x : Value}
    (h : ∃ c, (Value.list (xs.map .str)).dumps m.repr true = .ok c ∧ x = c.loads) :
    texts x = some xs := by
  obtain ⟨c, hc, rfl⟩ := h
  rw [loads_texts hc]
  exact mapM_text xs

theorem target_back {t : JobTarget} (ht : t.valid = true) {x : Value}
    (h : ∃ c, (record t.fields).dumps m.repr true = .ok c ∧ x = c.loads) :
    JobTarget.ofDict x = some t := by
  obtain ⟨c, hc, rfl⟩ := h
  have hn : (t.fields.map Prod.fst).Nodup :=
    (by decide : ["device_ids".toList, "group_ids".toList, "required_tags".toList,
      "max_hosts".toList].Nodup)
  obtain ⟨d, hd, -, hget⟩ := loads_fields hn hc
  simp only [JobTarget.fields, List.forall_mem_cons] at hget
  obtain ⟨hdevices, hgroups, htags, hhosts, -⟩ := hget
  rw [hd, JobTarget.ofDict, texts_back hdevices, texts_back hgroups, texts_back htags,
    scalar_back hhosts rfl]
  exact if_pos ht

/-- Only the arguments of a job may be read back as something else. -/
theorem ofSpec_spec {job : FleetJob} {spec : Json} (hvalid : job.valid m = true)
    (hspec : job.spec m = some spec) : ∃ c items, (Value.dict job.arguments).dumps m.repr true = .ok c ∧
      c.loads = .dict items ∧ items.length ≤ job.arguments.length ∧
      ∀ job' : FleetJob, job' = { job with arguments := items } →
        job'.valid m = true → FleetJob.ofSpec m spec = some job' := by
  obtain ⟨hdumps, -⟩ := bounded_some.mp hspec
  have hn : (job.fields.map Prod.fst).Nodup :=
    (by decide : ["job_id".toList, "idempotency_key".toList, "operation_id".toList,
      "arguments".toList, "target".toList, "created_at".toList, "expires_at".toList,
      "dry_run".toList, "approval_digest".toList].Nodup)
  obtain ⟨d, hd, -, hget⟩ := loads_fields hn hdumps
  simp only [FleetJob.fields, List.forall_mem_cons] at hget
  obtain ⟨hid, hkey, hoperation, ⟨c, hc, harguments⟩, htarget, hcreated, hexpires, hdry,
    happroval, -⟩ := hget
  obtain ⟨items, hitems, hlength⟩ := loads_dict hc
  refine ⟨c, items, hc, hitems, hlength, ?_⟩
  rintro job' rfl hvalid'
  have htargetValid : job.target.valid = true := by
    rw [FleetJob.valid, decide_eq_true_eq] at hvalid
    exact hvalid.1
  rw [FleetJob.ofSpec, hd]
  dsimp only
  rw [scalar_back hid rfl, scalar_back hkey rfl, scalar_back hoperation rfl, harguments, hitems,
    target_back htargetValid htarget, scalar_back hcreated rfl, scalar_back hexpires rfl,
    scalar_back hdry rfl, scalar_back happroval rfl]
  exact if_pos hvalid'

theorem toDict_congr {job job' : FleetJob} {items : List (Key × Value)}
    (hjob : job' = { job with arguments := items })
    (h : (Value.dict items).dumps m.repr true = (Value.dict job.arguments).dumps m.repr true) :
    job'.toDict.dumps m.repr true = job.toDict.dumps m.repr true := by
  subst hjob
  refine dumps_record_congr ?_
  exact .cons ⟨rfl, rfl⟩ (.cons ⟨rfl, rfl⟩ (.cons ⟨rfl, rfl⟩ (.cons ⟨rfl, h⟩
    (List.forall₂_same.mpr fun _ _ => ⟨rfl, rfl⟩))))

/-- A job whose arguments have, at every level, keys that sort as their texts is read back to one
    with its digest. -/
theorem FleetJob.reloads {job : FleetJob} (hvalid : job.valid m = true)
    (haligned : (Value.dict job.arguments).aligned m.repr = true) : job.Reloads m := by
  rw [FleetJob.valid, decide_eq_true_eq] at hvalid
  obtain ⟨spec, hspec⟩ := Option.isSome_iff_exists.mp hvalid.2.2.2.2.2.2.2
  obtain ⟨c, items, hc, hitems, hlength, hread⟩ := ofSpec_spec (decide_eq_true hvalid) hspec
  have hagain := dumps_loads haligned hc hc
  rw [hitems, ← hc] at hagain
  have hdict : ({ job with arguments := items }).toDict.dumps m.repr true
      = job.toDict.dumps m.repr true := toDict_congr rfl hagain
  have hspec' : m.bounded { job with arguments := items }.toDict = m.bounded job.toDict := by
    rw [Machine.bounded, Machine.bounded, Machine.canonical, Machine.canonical, hdict]
  refine ⟨spec, _, hspec, hread _ rfl ?_, ?_⟩
  · rw [FleetJob.valid, decide_eq_true_eq, hspec']
    exact ⟨hvalid.1, hvalid.2.1, hvalid.2.2.1, hvalid.2.2.2.1, hlength.trans hvalid.2.2.2.2.1,
      hvalid.2.2.2.2.2⟩
  · rw [FleetJob.digest, FleetJob.digest, FleetJob.spec, FleetJob.spec, hspec']

end Angerona.Fleet
