import Angerona.Lib.LoadedJson
import Angerona.Lib.Raising
import Angerona.Ring.Frame

/-!
    The payload of an authenticated frame, `decode_sensor_payload`.

    Python's JSON parser is a parameter: it gives no value where `json.loads` raises a `ValueError`.
    The checks are in the order of the source, and two of them can raise before they refuse: the
    conversion of a large whole number to a float, and the search for a list or an object in a
    set. -/

namespace Angerona.Ring
open Text PyJson PyStr Raising LoadedJson

inductive SensorError where
  /-- `FrameError`. -/
  | frame (message : String)
  /-- `TypeError`: a list or an object has no hash. -/
  | type
  /-- `OverflowError`: a whole number is too large for a float. -/
  | overflow
  deriving DecidableEq

/-- A process event as it is returned. -/
structure ProcessEvent where
  type : PyStr
  pid : ℤ
  ppid : Option ℤ
  name : PyStr
  ts : Double
  exe : PyStr
  locationStatus : PyStr
  cmdline : PyStr
  commandLineStatus : PyStr
  parentName : PyStr
  deriving DecidableEq

/-! ### Fields -/

def processCreation : PyStr := ofStr "process_creation".toList

def legacyFields : List PyStr :=
  ["type", "pid", "ppid", "name", "ts"].map fun f : String => ofStr f.toList

def enrichedFields : List PyStr :=
  legacyFields ++ ["exe", "location_status", "cmdline", "command_line_status", "parent_name"].map
    fun f : String => ofStr f.toList

def allowedStatuses : List PyStr :=
  ["resolved", "access_denied", "process_exited", "unavailable"].map fun f : String => ofStr f.toList

def nul : Point := .char (Char.ofNat 0)

/-! ### Checks -/

/-- `type(pid) is int and 1 <= pid <= 0xFFFFFFFF`. -/
def pidOf : Loaded → Option ℤ
  | .int n => if 1 ≤ n ∧ n ≤ 0xFFFFFFFF then some n else none
  | _ => none

/-- `parent is None or type(parent) is int and 0 <= parent <= 0xFFFFFFFF`. -/
def parentOf : Loaded → Option (Option ℤ)
  | .null => some none
  | .int n => if 0 ≤ n ∧ n ≤ 0xFFFFFFFF then some (some n) else none
  | _ => none

def nameOf : Loaded → Option PyStr
  | .str s => if s ≠ [] ∧ s.length ≤ 512 ∧ nul ∉ s then some s else none
  | _ => none

/-- The timestamp: `float(observed)` comes before the comparison with zero. -/
def timeOf : Loaded → Except SensorError Double
  | .int n =>
    (Double.ofInt n).elim (.error .overflow) fun d =>
      if n < 0 then .error (.frame "IPC process timestamp is invalid") else .ok d
  | .float (.finite d) =>
    if d.val < 0 then .error (.frame "IPC process timestamp is invalid") else .ok d
  | _ => .error (.frame "IPC process timestamp is invalid")

def textOf (field : String) (limit : ℕ) : Loaded → Except SensorError PyStr
  | .str s =>
    if s.length ≤ limit ∧ nul ∉ s then .ok s
    else .error (.frame ("IPC process " ++ field ++ " is invalid"))
  | _ => .error (.frame ("IPC process " ++ field ++ " is invalid"))

/-- `status in allowed_statuses`, which hashes the status. -/
def statusOf : Loaded → Except SensorError PyStr
  | .list _ => .error .type
  | .dict _ => .error .type
  | .str s =>
    if allowedStatuses.contains s then .ok s else .error (.frame "IPC process evidence status is invalid")
  | _ => .error (.frame "IPC process evidence status is invalid")

/-- The object that a payload is, if it is one with the right fields. -/
def itemsOf (loads : List UInt8 → Option Loaded) (sensorId : Option ℤ) (payload : List UInt8) :
    Except SensorError Items :=
  if sensorId ≠ some 1 then .error (.frame "IPC sensor identifier is unsupported")
  else if maxSlotSize < payload.length then .error (.frame "IPC sensor payload is invalid")
  else
    match loads payload with
    | none => .error (.frame "IPC sensor payload is not strict JSON")
    | some (.dict items) =>
      if hasFields items legacyFields || hasFields items enrichedFields then .ok items
      else .error (.frame "IPC process payload fields are invalid")
    | some _ => .error (.frame "IPC process payload fields are invalid")

/-- The process that the object names. -/
def identityOf (items : Items) : Except SensorError (ℤ × Option ℤ × PyStr) :=
  match getField items "type" .null with
  | .str t =>
    if t ≠ processCreation then .error (.frame "IPC process payload type is unsupported")
    else
      match pidOf (getField items "pid" .null), parentOf (getField items "ppid" .null) with
      | some pid, some parent =>
        (nameOf (getField items "name" .null)).elim (.error (.frame "IPC process name is invalid"))
          fun name => .ok (pid, parent, name)
      | _, _ => .error (.frame "IPC process identifiers are invalid")
  | _ => .error (.frame "IPC process payload type is unsupported")

/-- The executable path, the command line and the name of the parent. -/
def textsOf (items : Items) : Except SensorError (PyStr × PyStr × PyStr) := do
  let exe ← textOf "executable path" 1024 (getField items "exe" (.str []))
  let cmdline ← textOf "command line" 1024 (getField items "cmdline" (.str []))
  let parentName ← textOf "parent process name" 512 (getField items "parent_name" (.str []))
  .ok (exe, cmdline, parentName)

def unavailable : Loaded := .str (ofStr "unavailable".toList)

/-- `decode_sensor_payload`; `sensorId` is `none` for anything that is no integer. -/
def decodeSensorPayload (loads : List UInt8 → Option Loaded) (sensorId : Option ℤ)
    (payload : List UInt8) : Except SensorError ProcessEvent := do
  let items ← itemsOf loads sensorId payload
  let (pid, parent, name) ← identityOf items
  let ts ← timeOf (getField items "ts" .null)
  let (exe, cmdline, parentName) ← textsOf items
  let location ← statusOf (getField items "location_status" unavailable)
  let commandLine ← statusOf (getField items "command_line_status" unavailable)
  .ok ⟨processCreation, pid, parent, name, ts, exe, location, cmdline, commandLine, parentName⟩

/-! ### What is returned -/

/-- The bounds of a returned event. -/
structure ProcessEvent.Bounded (r : ProcessEvent) : Prop where
  type : r.type = processCreation
  pid : 1 ≤ r.pid ∧ r.pid ≤ 0xFFFFFFFF
  ppid : ∀ p, r.ppid = some p → 0 ≤ p ∧ p ≤ 0xFFFFFFFF
  name : r.name ≠ [] ∧ r.name.length ≤ 512 ∧ nul ∉ r.name
  ts : 0 ≤ r.ts.val
  exe : r.exe.length ≤ 1024 ∧ nul ∉ r.exe
  cmdline : r.cmdline.length ≤ 1024 ∧ nul ∉ r.cmdline
  parentName : r.parentName.length ≤ 512 ∧ nul ∉ r.parentName
  locationStatus : r.locationStatus ∈ allowedStatuses
  commandLineStatus : r.commandLineStatus ∈ allowedStatuses

theorem pidOf_some {v : Loaded} {n : ℤ} (h : pidOf v = some n) : 1 ≤ n ∧ n ≤ 0xFFFFFFFF := by
  cases v with
  | int m =>
    rw [pidOf] at h
    split at h
    · rename_i hm
      obtain rfl := Option.some.inj h
      exact hm
    · cases h
  | _ => cases h

theorem parentOf_some {v : Loaded} {o : Option ℤ} (h : parentOf v = some o) :
    ∀ p, o = some p → 0 ≤ p ∧ p ≤ 0xFFFFFFFF := by
  rintro p rfl
  cases v with
  | int m =>
    rw [parentOf] at h
    split at h
    · rename_i hm
      obtain rfl := Option.some.inj (Option.some.inj h)
      exact hm
    · cases h
  | null => cases h
  | _ => cases h

theorem nameOf_some {v : Loaded} {s : PyStr} (h : nameOf v = some s) :
    s ≠ [] ∧ s.length ≤ 512 ∧ nul ∉ s := by
  cases v with
  | str t =>
    rw [nameOf] at h
    split at h
    · rename_i ht
      obtain rfl := Option.some.inj h
      exact ht
    · cases h
  | _ => cases h

theorem identityOf_ok {items : Items} {pid : ℤ} {parent : Option ℤ} {name : PyStr}
    (h : identityOf items = .ok (pid, parent, name)) : (1 ≤ pid ∧ pid ≤ 0xFFFFFFFF) ∧
      (∀ p, parent = some p → 0 ≤ p ∧ p ≤ 0xFFFFFFFF) ∧ name ≠ [] ∧ name.length ≤ 512 ∧
        nul ∉ name := by
  rw [identityOf] at h
  split at h
  · split at h
    · cases h
    · split at h
      · rename_i hpid hparent
        rcases hname : nameOf (getField items "name" .null) with _ | s
        · rw [hname] at h
          cases h
        · rw [hname] at h
          cases h
          exact ⟨pidOf_some hpid, parentOf_some hparent, nameOf_some hname⟩
      · cases h
  · cases h

/-- The sign of a rounded whole number. -/
theorem ofInt_nonneg {n : ℤ} {d : Double} (hn : ¬n < 0) (h : Double.ofInt n = some d) :
    0 ≤ d.val := by
  rw [Double.ofInt] at h
  split at h
  · obtain rfl := Option.some.inj h
    rw [Double.val, if_neg (by rwa [decide_eq_true_eq])]
    exact Int.natCast_nonneg _
  · cases h

theorem timeOf_ok {v : Loaded} {d : Double} (h : timeOf v = .ok d) : 0 ≤ d.val := by
  unfold timeOf at h
  split at h
  · rename_i n
    rcases hd : Double.ofInt n with _ | e
    · rw [hd] at h
      cases h
    · rw [hd, Option.elim_some] at h
      obtain ⟨hn, h⟩ := if_error_ok.mp h
      obtain rfl := Except.ok.inj h
      exact ofInt_nonneg hn hd
  · obtain ⟨hn, h⟩ := if_error_ok.mp h
    obtain rfl := Except.ok.inj h
    exact not_lt.mp hn
  · cases h

theorem textOf_ok {field : String} {limit : ℕ} {v : Loaded} {s : PyStr}
    (h : textOf field limit v = .ok s) : s.length ≤ limit ∧ nul ∉ s := by
  cases v with
  | str t =>
    rw [textOf] at h
    split at h
    · rename_i ht
      obtain rfl := Except.ok.inj h
      exact ht
    · cases h
  | _ => cases h

theorem statusOf_ok {v : Loaded} {s : PyStr} (h : statusOf v = .ok s) : s ∈ allowedStatuses := by
  cases v with
  | str t =>
    rw [statusOf] at h
    split at h
    · rename_i ht
      obtain rfl := Except.ok.inj h
      exact List.contains_iff_mem.mp ht
    · cases h
  | _ => cases h

variable {loads : List UInt8 → Option Loaded} {sensorId : Option ℤ} {payload : List UInt8}

/-- Whatever is returned is within its bounds. -/
theorem decode_bounded {r : ProcessEvent} (h : decodeSensorPayload loads sensorId payload = .ok r) :
    r.Bounded := by
  rw [decodeSensorPayload] at h
  obtain ⟨items, -, h⟩ := bind_ok.mp h
  obtain ⟨⟨pid, parent, name⟩, hwho, h⟩ := bind_ok.mp h
  obtain ⟨ts, hts, h⟩ := bind_ok.mp h
  obtain ⟨⟨exe, cmdline, parentName⟩, htexts, h⟩ := bind_ok.mp h
  obtain ⟨location, hloc, h⟩ := bind_ok.mp h
  obtain ⟨commandLine, hcmd, h⟩ := bind_ok.mp h
  obtain rfl := Except.ok.inj h
  obtain ⟨hpid, hparent, hname⟩ := identityOf_ok hwho
  obtain ⟨exe, hexe, htexts⟩ := bind_ok.mp htexts
  obtain ⟨cmdline, hcmdline, htexts⟩ := bind_ok.mp htexts
  obtain ⟨parentName, hparentName, htexts⟩ := bind_ok.mp htexts
  cases htexts
  exact ⟨rfl, hpid, hparent, hname, timeOf_ok hts, textOf_ok hexe, textOf_ok hcmdline,
    textOf_ok hparentName, statusOf_ok hloc, statusOf_ok hcmd⟩

/-! ### What is raised -/

/-- Nothing but a `FrameError` is raised. -/
def Refuses {α : Type} (x : Except SensorError α) : Prop :=
  ∀ e, x = .error e → ∃ message, e = .frame message

theorem refuses_ok {α : Type} (a : α) : Refuses (.ok a) := fun _ h => by cases h

theorem refuses_frame {α : Type} (m : String) : Refuses (.error (.frame m) : Except SensorError α) :=
  fun _ h => ⟨m, (Except.error.inj h).symm⟩

theorem Refuses.bind {α β : Type} {x : Except SensorError α} {f : α → Except SensorError β}
    (hx : Refuses x) (hf : ∀ a, x = .ok a → Refuses (f a)) : Refuses (x >>= f) := by
  rcases x with e | a
  · rintro e' h
    exact hx e' (congrArg _ (Except.error.inj h))
  · exact hf a rfl

theorem Refuses.of_bind {α β : Type} {x : Except SensorError α} {f : α → Except SensorError β}
    (h : Refuses (x >>= f)) : Refuses x ∧ ∀ a, x = .ok a → Refuses (f a) := by
  rcases x with e | a
  · refine ⟨fun e' he => h e' (congrArg _ (Except.error.inj he)), fun a ha => ?_⟩
    cases ha
  · refine ⟨refuses_ok a, fun b hb => ?_⟩
    obtain rfl := Except.ok.inj hb
    exact h

theorem itemsOf_refuses : Refuses (itemsOf loads sensorId payload) := by
  unfold itemsOf
  split
  · exact refuses_frame _
  · split
    · exact refuses_frame _
    · split
      · exact refuses_frame _
      · split
        · exact refuses_ok _
        · exact refuses_frame _
      · exact refuses_frame _

theorem identityOf_refuses (items : Items) : Refuses (identityOf items) := by
  unfold identityOf
  split
  · split
    · exact refuses_frame _
    · split
      · rcases nameOf (getField items "name" .null) with _ | name
        · exact refuses_frame _
        · exact refuses_ok _
      · exact refuses_frame _
  · exact refuses_frame _

theorem textOf_refuses (field : String) (limit : ℕ) (v : Loaded) :
    Refuses (textOf field limit v) := by
  unfold textOf
  split
  · split
    · exact refuses_ok _
    · exact refuses_frame _
  · exact refuses_frame _

theorem textsOf_refuses (items : Items) : Refuses (textsOf items) := by
  unfold textsOf
  refine (textOf_refuses _ _ _).bind fun _ _ => (textOf_refuses _ _ _).bind fun _ _ =>
    (textOf_refuses _ _ _).bind fun _ _ => refuses_ok _

/-- The conversion raises for a huge number, whatever its sign, and for nothing else. -/
theorem timeOf_refuses (v : Loaded) : Refuses (timeOf v) ↔ v.huge = false := by
  unfold timeOf
  split
  · rename_i n
    rw [Loaded.huge]
    rcases hd : Double.ofInt n with _ | d
    · refine iff_of_false (fun h => ?_) (by simp)
      obtain ⟨m, hm⟩ := h .overflow rfl
      cases hm
    · refine iff_of_true ?_ rfl
      rw [Option.elim_some]
      split
      · exact refuses_frame _
      · exact refuses_ok _
  · refine iff_of_true ?_ rfl
    split
    · exact refuses_frame _
    · exact refuses_ok _
  · rename_i hint _
    refine iff_of_true (refuses_frame _) ?_
    cases v with
    | int n => exact absurd rfl (hint n)
    | _ => rfl

theorem statusOf_refuses (v : Loaded) : Refuses (statusOf v) ↔ v.unhashable = false := by
  have htype : ¬Refuses (.error .type : Except SensorError PyStr) := fun h => by
    obtain ⟨m, hm⟩ := h .type rfl
    cases hm
  cases v with
  | list xs => exact iff_of_false htype (by simp [Loaded.unhashable])
  | dict items => exact iff_of_false htype (by simp [Loaded.unhashable])
  | str s =>
    refine iff_of_true ?_ rfl
    rw [statusOf]
    split
    · exact refuses_ok _
    · exact refuses_frame _
  | _ => exact iff_of_true (refuses_frame _) rfl

/-- A payload that passes the checks before it has a timestamp in the range of floats, and then
    statuses with a hash; the second one is looked at if the first is allowed. -/
structure Hashable (items : Items) : Prop where
  ts : (getField items "ts" .null).huge = false
  location : ∀ ts texts, timeOf (getField items "ts" .null) = .ok ts → textsOf items = .ok texts →
    (getField items "location_status" unavailable).unhashable = false
  commandLine : ∀ ts texts status, timeOf (getField items "ts" .null) = .ok ts →
    textsOf items = .ok texts → statusOf (getField items "location_status" unavailable) = .ok status →
      (getField items "command_line_status" unavailable).unhashable = false

/-- CORRECT: a payload is decoded within its bounds or refused with a `FrameError` exactly if,
    where its object names a process, its timestamp and its statuses can be converted and hashed. -/
theorem decodes_or_refuses (loads : List UInt8 → Option Loaded) (sensorId : Option ℤ)
    (payload : List UInt8) :
    ((∃ r, decodeSensorPayload loads sensorId payload = .ok r ∧ r.Bounded) ∨
      ∃ message, decodeSensorPayload loads sensorId payload = .error (.frame message)) ↔
    ∀ items who, itemsOf loads sensorId payload = .ok items → identityOf items = .ok who →
      Hashable items := by
  have hrefuses : ((∃ r, decodeSensorPayload loads sensorId payload = .ok r ∧ r.Bounded) ∨
      ∃ message, decodeSensorPayload loads sensorId payload = .error (.frame message)) ↔
      Refuses (decodeSensorPayload loads sensorId payload) := by
    rcases hd : decodeSensorPayload loads sensorId payload with e | r
    · constructor
      · rintro (⟨r, hr, -⟩ | ⟨m, hm⟩)
        · cases hr
        · rw [hm]
          exact refuses_frame m
      · intro h
        obtain ⟨m, rfl⟩ := h e rfl
        exact .inr ⟨m, rfl⟩
    · exact iff_of_true (.inl ⟨r, rfl, decode_bounded hd⟩) (refuses_ok r)
  rw [hrefuses, decodeSensorPayload]
  constructor
  · intro h items who hitems hwho
    obtain ⟨hts, h⟩ := ((h.of_bind.2 items hitems).of_bind.2 who hwho).of_bind
    refine ⟨(timeOf_refuses _).mp hts, fun ts texts ht htexts => ?_, fun ts texts s ht htexts hs => ?_⟩
    · exact (statusOf_refuses _).mp ((h ts ht).of_bind.2 texts htexts).of_bind.1
    · exact (statusOf_refuses _).mp
        (((h ts ht).of_bind.2 texts htexts).of_bind.2 s hs).of_bind.1
  · intro h
    refine itemsOf_refuses.bind fun items hitems => (identityOf_refuses items).bind fun who hwho => ?_
    have hh := h items who hitems hwho
    refine Refuses.bind ((timeOf_refuses _).mpr hh.ts) fun ts ht => ?_
    refine (textsOf_refuses items).bind fun texts htexts => ?_
    refine Refuses.bind ((statusOf_refuses _).mpr (hh.location ts texts ht htexts)) fun s hs => ?_
    exact Refuses.bind ((statusOf_refuses _).mpr (hh.commandLine ts texts s ht htexts hs))
      fun _ _ => refuses_ok _

/-! ### Two payloads -/

def ascii (s : String) : List UInt8 := s.toList.map fun c => UInt8.ofNat c.toNat

/-- A payload whose timestamp is a one and 309 zeros. -/
def hugePayload : List UInt8 :=
  ascii "\x7b\"type\":\"process_creation\",\"pid\":1,\"ppid\":null,\"name\":\"a\",\"ts\":1" ++
    List.replicate 309 48 ++ ascii "\x7d"

/-- A payload whose status is a list. -/
def listPayload : List UInt8 :=
  ascii "\x7b\"type\":\"process_creation\",\"pid\":1,\"ppid\":null,\"name\":\"a\",\"ts\":0," ++
    ascii "\"exe\":\"\",\"location_status\":[],\"cmdline\":\"\"," ++
    ascii "\"command_line_status\":\"resolved\",\"parent_name\":\"\"\x7d"

def legacyItems (ts : ℤ) : Items :=
  [("type", .str processCreation), ("pid", .int 1), ("ppid", .null),
    ("name", .str (ofStr "a".toList)), ("ts", .int ts)].map
      fun i : String × Loaded => (ofStr i.1.toList, i.2)

/-- What the two payloads are loaded as. -/
def sampleLoads (payload : List UInt8) : Option Loaded :=
  if payload = hugePayload then some (.dict (legacyItems (10 ^ 309)))
  else if payload = listPayload then
    some (.dict (legacyItems 0 ++ [("exe", .str []), ("location_status", .list []),
      ("cmdline", .str []), ("command_line_status", .str (ofStr "resolved".toList)),
      ("parent_name", .str [])].map fun i : String × Loaded => (ofStr i.1.toList, i.2)))
  else none

/-- An `OverflowError` and a `TypeError` are raised instead of a `FrameError`. -/
theorem payload_raises :
    ¬((∃ r, decodeSensorPayload sampleLoads (some 1) hugePayload = .ok r ∧ r.Bounded) ∨
      ∃ message, decodeSensorPayload sampleLoads (some 1) hugePayload = .error (.frame message)) ∧
    ¬((∃ r, decodeSensorPayload sampleLoads (some 1) listPayload = .ok r ∧ r.Bounded) ∨
      ∃ message, decodeSensorPayload sampleLoads (some 1) listPayload = .error (.frame message)) := by
  have hhuge : decodeSensorPayload sampleLoads (some 1) hugePayload = .error .overflow := by
    decide +kernel
  have hlist : decodeSensorPayload sampleLoads (some 1) listPayload = .error .type := by
    decide +kernel
  rw [hhuge, hlist]
  simp

end Angerona.Ring
