import Angerona.Lib.PyNumber
import Angerona.Lib.Transition

/-!
    The device table of `FleetControlPlane`: the four operations that read a device row, and what
    becomes of them when somebody without the tenant key has edited the row.

    SQLite stores what it is given: a `TEXT` column may hold bytes, and the `REAL` column a text that
    is no number to SQLite. A row carries the HMAC of its other columns, or the empty text of a row
    that was written before rows had one, which is not verified. -/

namespace Angerona.Fleet.Devices
open Text PyJson Raising

/-! ### Rows and devices -/

/-- What a `TEXT` column holds. -/
inductive TextCell where
  | text (s : Str)
  | blob (b : List UInt8)
  deriving DecidableEq

/-- What a `REAL` column holds. -/
inductive RealCell where
  | real (x : PyFloat)
  | other (c : TextCell)
  deriving DecidableEq

def TextCell.length : TextCell → ℕ
  | .text s => s.length
  | .blob b => b.length

def TextCell.text? : TextCell → Option Str
  | .text s => some s
  | .blob _ => none

def TextCell.ascii : TextCell → Bool
  | .text s => s.all (·.val < 128)
  | .blob _ => true

/-- `ORDER BY` one column. -/
def TextCell.le : TextCell → TextCell → Bool
  | .text s, .text t => ¬t < s
  | .text _, .blob _ => true
  | .blob _, .text _ => false
  | .blob a, .blob b => ¬b < a

inductive DeviceState where
  | active | quarantined | revoked | retired
  deriving DecidableEq

def DeviceState.text : DeviceState → Str
  | .active => "active".toList
  | .quarantined => "quarantined".toList
  | .revoked => "revoked".toList
  | .retired => "retired".toList

def DeviceState.ofText (s : Str) : Option DeviceState :=
  [.active, .quarantined, .revoked, .retired].find? fun state => state.text = s

/-- `allowed` of `transition_device_state`. -/
def DeviceState.allowed : DeviceState → List DeviceState
  | .active => [.quarantined, .revoked, .retired]
  | .quarantined => [.active, .revoked, .retired]
  | _ => []

/-- The columns of `fleet_devices` that the HMAC covers. -/
structure Values where
  tenantId : TextCell
  deviceId : TextCell
  publicKey : TextCell
  hostnameToken : TextCell
  platform : TextCell
  version : TextCell
  groupId : TextCell
  state : TextCell
  lastSeen : RealCell
  deriving DecidableEq

structure Row where
  values : Values
  recordHmac : TextCell
  deriving DecidableEq

inductive PlaneError where
  | value
  | type
  | permission
  | key
  /-- `RuntimeError("fleet device integrity verification failed")`. -/
  | integrity
  | changed
  | clock
  deriving DecidableEq

/-- `_ID` of the control plane. -/
def isId : Str → Bool
  | [] => false
  | c :: cs => c.isAlphanum ∧ 2 ≤ cs.length ∧ cs.length ≤ 127 ∧
      cs.all fun c => c.isAlphanum ∨ c ∈ "._:-".toList

/-- The checks of `__post_init__` that come before the one of the host name. -/
def identified (tenantId deviceId groupId : Str) (publicKey : TextCell) : Bool :=
  isId tenantId ∧ isId deviceId ∧ isId groupId ∧ 0 < publicKey.length ∧ publicKey.length ≤ 512

/-- The check of the host name and those after it. -/
def described (hostnameToken : Str) (platform version : TextCell) : Bool :=
  (hostnameToken.take 4 = "tok_".toList ∧ hostnameToken.length ≤ 80) ∧
    0 < platform.length ∧ platform.length ≤ 40 ∧ version.length ≤ 80

structure FleetDevice where
  tenantId : Str
  deviceId : Str
  publicKey : TextCell
  hostnameToken : Str
  platform : TextCell
  version : TextCell
  groupId : Str
  state : DeviceState
  lastSeen : RealCell
  identified : identified tenantId deviceId groupId publicKey = true
  described : described hostnameToken platform version = true
  deriving DecidableEq

/-- `FleetDevice(*values)`; bytes are no id and no state, and have no `startswith("tok_")`. -/
def FleetDevice.ofValues (v : Values) : Except PlaneError FleetDevice :=
  match v.tenantId, v.deviceId, v.groupId, v.state.text?.bind DeviceState.ofText with
  | .text t, .text d, .text g, some state =>
    if hi : Devices.identified t d g v.publicKey = true then
      match v.hostnameToken with
      | .blob _ => .error .type
      | .text h =>
        if hd : Devices.described h v.platform v.version = true then
          .ok ⟨t, d, v.publicKey, h, v.platform, v.version, g, state, v.lastSeen, hi, hd⟩
        else .error .value
    else .error .value
  | _, _, _, _ => .error .value

def FleetDevice.values (d : FleetDevice) : Values :=
  ⟨.text d.tenantId, .text d.deviceId, d.publicKey, .text d.hostnameToken, d.platform, d.version,
    .text d.groupId, .text d.state.text, d.lastSeen⟩

/-! ### The authenticator -/

structure Plane where
  /-- `float.__repr__`. -/
  repr : Double → Str
  /-- `float()` of a text or of bytes. -/
  parseFloat : TextCell → Option PyFloat
  /-- `hmac.new(key, text, sha256).hexdigest()` under the key of a tenant that is configured. -/
  key : Str → Option (Json → Str)
  key_id : ∀ t h, key t = some h → isId t = true
  key_hex : ∀ t h text, key t = some h → isHex 64 (h text) = true

namespace Plane

variable (P : Plane)

/-- `float(last_seen)`. -/
def float : RealCell → Option PyFloat
  | .real x => some x
  | .other c => P.parseFloat c

/-- `_canonical(_device_record_core(*fields))`. -/
def core (d : FleetDevice) : Except PlaneError Json :=
  match P.float d.lastSeen with
  | some (.finite lastSeen) =>
    match d.publicKey, d.platform, d.version with
    | .text publicKey, .text platform, .text version =>
      ((record [("tenant_id".toList, .str d.tenantId), ("device_id".toList, .str d.deviceId),
        ("public_key".toList, .str publicKey), ("hostname_token".toList, .str d.hostnameToken),
        ("platform".toList, .str platform), ("version".toList, .str version),
        ("group_id".toList, .str d.groupId), ("state".toList, .str d.state.text),
        ("last_seen".toList, .float (.finite lastSeen))]).dumps P.repr true).mapError fun _ => .value
    | _, _, _ => .error .type
  | _ => .error .value

/-- The row of a device with its `_device_record_hmac`. -/
def sign (hmac : Json → Str) (d : FleetDevice) : Except PlaneError Row :=
  (P.core d).map fun j => ⟨d.values, .text (hmac j)⟩

/-- `_verify_device_row`. -/
def verify (hmac : Json → Str) (r : Row) : Except PlaneError FleetDevice :=
  match FleetDevice.ofValues r.values with
  | .error e => .error e
  | .ok d =>
    if r.recordHmac = .text [] then .ok d
    else
      match P.core d with
      | .error e => .error e
      | .ok j =>
        if r.recordHmac = .text (hmac j) then .ok d
        else .error (if r.recordHmac.ascii then .integrity else .type)

/-! ### Operations -/

/-- `WHERE tenant_id=? AND device_id=?`. -/
def find (rows : List Row) (tenant device : Str) : Option Row :=
  rows.find? fun r => r.values.tenantId = .text tenant ∧ r.values.deviceId = .text device

/-- The verified row of a device. -/
def fetch (hmac : Json → Str) (rows : List Row) (tenant device : Str) :
    Except PlaneError (Option FleetDevice) :=
  match find rows tenant device with
  | none => .ok none
  | some r => (P.verify hmac r).map some

/-- What an operation that did not raise has done. -/
structure Outcome where
  /-- The devices that it read. -/
  seen : List FleetDevice
  /-- The devices that it returned. -/
  returned : List FleetDevice
  /-- The rows that it wrote. -/
  written : List Row
  deriving DecidableEq

/-- A stamp that is finite and positive. -/
def positive : PyFloat → Bool
  | .finite d => 0 < d.val
  | _ => false

/-- `_key`. -/
def keyOf (tenant : Str) : Except PlaneError (Json → Str) :=
  if isId tenant then (P.key tenant).elim (.error .permission) .ok else .error .value

/-- `register_device`. -/
def registerDevice (rows : List Row) (device : FleetDevice) (stamp : PyFloat) :
    Except PlaneError Outcome := do
  let hmac ← P.keyOf device.tenantId
  if !positive stamp then .error .value
  else
    let existing ← P.fetch hmac rows device.tenantId device.deviceId
    if existing.any (·.publicKey ≠ device.publicKey) then .error .value
    else if existing.any (·.state ≠ device.state) then .error .permission
    else if existing = none ∧ device.state ≠ .active then .error .permission
    else
      let row ← P.sign hmac { device with lastSeen := .real stamp }
      .ok ⟨existing.toList, [], [row]⟩

/-- `transition_device_state`. -/
def transitionDeviceState (rows : List Row) (tenant device newState expectedState : Str) :
    Except PlaneError Outcome := do
  let hmac ← P.keyOf tenant
  if !isId device then .error .value
  else
    match DeviceState.ofText newState, DeviceState.ofText expectedState with
    | some new, some expected =>
      let current ← P.fetch hmac rows tenant device
      match current with
      | none => .error .key
      | some d =>
        if d.state ≠ expected then .error .changed
        else if new ≠ d.state ∧ new ∉ d.state.allowed then .error .permission
        else
          let row ← P.sign hmac { d with state := new }
          .ok ⟨[d], [{ d with state := new }], [row]⟩
    | _, _ => .error .value

/-- A call of `ingest_batch`: the devices of the prepared events in order, and what the rate limiter
    and the event table make of the batch; none of these reads device rows. -/
structure Batch where
  tenant : Str
  receivedAt : PyFloat
  prepared : Except PlaneError (List Str)
  admitted : Except PlaneError Unit

/-- The device of a batch, which must be active. -/
def admitDevice (hmac : Json → Str) (rows : List Row) (tenant device : Str) :
    Except PlaneError FleetDevice := do
  let current ← P.fetch hmac rows tenant device
  match current with
  | none => .error .permission
  | some d => if d.state ≠ .active then .error .permission else .ok d

/-- `ingest_batch`. -/
def ingestBatch (rows : List Row) (b : Batch) : Except PlaneError Outcome := do
  let hmac ← P.keyOf b.tenant
  if !positive b.receivedAt then .error .clock
  else
    let deviceIds ← b.prepared
    let devices ← deviceIds.mapM (P.admitDevice hmac rows b.tenant)
    let _ ← b.admitted
    let written ← devices.mapM fun d => P.sign hmac { d with lastSeen := .real b.receivedAt }
    .ok ⟨devices, [], written⟩

/-- `ORDER BY device_id`. -/
def byDevice (a b : Row) : Prop := a.values.deviceId.le b.values.deviceId = true

instance : DecidableRel byDevice := fun a b =>
  inferInstanceAs (Decidable (a.values.deviceId.le b.values.deviceId = true))

/-- The rows of a tenant. -/
def tenantRows (rows : List Row) (tenant : Str) : List Row :=
  (rows.filter fun r => r.values.tenantId = .text tenant).insertionSort byDevice

/-- `devices`. -/
def devices (rows : List Row) (tenant : Str) : Except PlaneError Outcome := do
  let hmac ← P.keyOf tenant
  let devices ← (tenantRows rows tenant).mapM (P.verify hmac)
  .ok ⟨devices, devices, []⟩

inductive Call where
  | registerDevice (device : FleetDevice) (stamp : PyFloat)
  | transitionDeviceState (tenant device newState expectedState : Str)
  | ingestBatch (batch : Batch)
  | devices (tenant : Str)

def call (rows : List Row) : Call → Except PlaneError Outcome
  | .registerDevice device stamp => P.registerDevice rows device stamp
  | .transitionDeviceState tenant device new expected =>
    P.transitionDeviceState rows tenant device new expected
  | .ingestBatch b => P.ingestBatch rows b
  | .devices tenant => P.devices rows tenant

end Plane

/-! ### The table over time -/

/-- The primary key. -/
def Row.key (r : Row) : TextCell × TextCell := (r.values.tenantId, r.values.deviceId)

/-- Insert a row, or write over the row with its key. -/
def store (rows : List Row) (row : Row) : List Row :=
  if rows.any fun r => r.key = row.key then rows.map fun r => if r.key = row.key then row else r
  else rows ++ [row]

structure World where
  rows : List Row
  /-- Every row that was written so far. -/
  written : List Row

/-- A call that raises is rolled back. -/
def World.exec (P : Plane) (w : World) (c : Plane.Call) : World :=
  match P.call w.rows c with
  | .error _ => w
  | .ok o => ⟨o.written.foldl store w.rows, w.written ++ o.written⟩

/-- The table after some calls; `rows` are from before rows had an authenticator. -/
def World.after (P : Plane) (rows : List Row) (calls : List Plane.Call) : World :=
  calls.foldl (World.exec P) ⟨rows, []⟩

/-- Rows that were written before rows had an authenticator. -/
structure Legacy (rows : List Row) : Prop where
  keys : (rows.map Row.key).Nodup
  blank : ∀ r ∈ rows, r.recordHmac = .text []
  device : ∀ r ∈ rows, ∃ d, FleetDevice.ofValues r.values = .ok d

/-- Somebody has put `r'` in the place of `r`. -/
def edit (r r' : Row) (rows : List Row) : List Row := rows.map fun q => if q = r then r' else q

/-- The text that the HMAC of a row is made of. -/
def Plane.textOf (P : Plane) (r : Row) : Option Json :=
  match FleetDevice.ofValues r.values with
  | .ok d => (P.core d).toOption
  | .error _ => none

/-- The row has the HMAC that the tenant's key gives its values. -/
def Plane.Sealed (P : Plane) (r : Row) : Prop :=
  ∃ t hmac j, r.values.tenantId = .text t ∧ P.key t = some hmac ∧ P.textOf r = some j ∧
    r.recordHmac = .text (hmac j)

/-- The HMAC is that of a row that was written with the same values. -/
def Plane.Restored (P : Plane) (written : List Row) (r : Row) : Prop :=
  ∃ q ∈ written, q.values.tenantId = r.values.tenantId ∧ q.recordHmac = r.recordHmac ∧
    ∃ j, P.textOf q = some j ∧ P.textOf r = some j

/-- HMAC is ideal: without the key, only an HMAC that was written fits. -/
def Plane.Unforged (P : Plane) (written : List Row) (r : Row) : Prop :=
  P.Sealed r → P.Restored written r

/-- No operation acts on what was changed: it does what it would have done, or it raises. -/
def Plane.Protected (P : Plane) (rows : List Row) (r r' : Row) : Prop :=
  ∀ c, Refuses (P.call (edit r r' rows) c) (P.call rows c)

/-- The change keeps the row's key; and it keeps all values, or leaves some that make no device, or
    an HMAC that is neither blank nor that of an earlier version of the row. -/
structure Plane.Harmless (P : Plane) (written : List Row) (r r' : Row) : Prop where
  key : r'.key = r.key
  changed : r'.values = r.values ∨ (∀ d, FleetDevice.ofValues r'.values ≠ .ok d) ∨
    (r'.recordHmac ≠ .text [] ∧ ¬P.Restored written r')

/-! ### Reading a row back -/

theorem ofText_text (state : DeviceState) : DeviceState.ofText state.text = some state := by
  cases state <;> rfl

theorem text_ofText {s : Str} {state : DeviceState} (h : DeviceState.ofText s = some state) :
    state.text = s := by
  simpa using List.find?_some h

theorem ofValues_values (d : FleetDevice) : FleetDevice.ofValues d.values = .ok d := by
  rw [FleetDevice.ofValues, FleetDevice.values]
  simp only [TextCell.text?, Option.bind_some, ofText_text, dif_pos d.identified,
    dif_pos d.described]

theorem values_ofValues {v : Values} {d : FleetDevice} (h : FleetDevice.ofValues v = .ok d) :
    d.values = v := by
  obtain ⟨tenantId, deviceId, publicKey, hostnameToken, platform, version, groupId, state, lastSeen⟩ := v
  rw [FleetDevice.ofValues] at h
  split at h
  · rename_i t d' g state' ht hd hg hstate
    split at h
    · split at h
      · cases h
      · rename_i hn hhost
        split at h
        · obtain rfl := Except.ok.inj h
          obtain ⟨s, hs, hof⟩ := Option.bind_eq_some_iff.mp hstate
          cases state with
          | blob b => cases hs
          | text s' =>
            obtain rfl := Option.some.inj hs
            simp only at ht hd hg hhost
            rw [FleetDevice.values, text_ofText hof, ht, hd, hg, hhost]
        · cases h
    · cases h
  · cases h

variable {P : Plane} {rows : List Row} {hmac : Json → Str} {tenant device : Str} {d : FleetDevice}

theorem verify_ok {r : Row} : P.verify hmac r = .ok d ↔ FleetDevice.ofValues r.values = .ok d ∧
    (r.recordHmac = .text [] ∨ ∃ j, P.textOf r = some j ∧ r.recordHmac = .text (hmac j)) := by
  rw [Plane.verify, Plane.textOf]
  rcases hd : FleetDevice.ofValues r.values with e | d'
  · simp
  · by_cases hblank : r.recordHmac = .text []
    · simp [hblank]
    · rcases hcore : P.core d' with e | j
      · simp [hblank, hcore, Except.toOption]
      · by_cases htag : r.recordHmac = .text (hmac j)
        · simp [hcore, htag, Except.toOption]
        · simp [hblank, hcore, htag, Except.toOption]

theorem keyOf_ok : P.keyOf tenant = .ok hmac ↔ P.key tenant = some hmac := by
  rw [Plane.keyOf]
  rcases hkey : P.key tenant with _ | h
  · split <;> simp
  · simp [P.key_id tenant h hkey]

theorem find_some {r : Row} (h : Plane.find rows tenant device = some r) :
    r ∈ rows ∧ r.values.tenantId = .text tenant ∧ r.values.deviceId = .text device := by
  have hp := List.find?_some h
  exact ⟨List.mem_of_find?_eq_some h, by simpa using hp⟩

/-- The device that an operation has read is of the tenant and id that it asked for. -/
theorem fetch_some (h : P.fetch hmac rows tenant device = .ok (some d)) :
    ∃ r, Plane.find rows tenant device = some r ∧ P.verify hmac r = .ok d ∧ d.tenantId = tenant ∧
      d.deviceId = device := by
  rw [Plane.fetch] at h
  split at h
  · cases Except.ok.inj h
  · rename_i r hr
    obtain ⟨d', hd', he⟩ := map_ok.mp h
    obtain rfl := Option.some.inj he
    obtain ⟨-, htenant, hdevice⟩ := find_some hr
    have hvalues := values_ofValues (verify_ok.mp hd').1
    rw [← hvalues] at htenant hdevice
    exact ⟨r, hr, hd', TextCell.text.inj htenant, TextCell.text.inj hdevice⟩

/-! ### What the operations write -/

theorem sign_sealed {row : Row} (hkey : P.key d.tenantId = some hmac)
    (h : P.sign hmac d = .ok row) : P.Sealed row := by
  obtain ⟨j, hj, rfl⟩ := map_ok.mp h
  refine ⟨d.tenantId, hmac, j, rfl, hkey, ?_, rfl⟩
  rw [Plane.textOf, ofValues_values]
  simp only [hj]
  rfl

theorem registerDevice_ok {dev : FleetDevice} {stamp : PyFloat} {o : Plane.Outcome}
    (h : P.registerDevice rows dev stamp = .ok o) : ∃ hmac existing row,
      P.key dev.tenantId = some hmac ∧
      P.fetch hmac rows dev.tenantId dev.deviceId = .ok existing ∧
      P.sign hmac { dev with lastSeen := .real stamp } = .ok row ∧
      o = ⟨existing.toList, [], [row]⟩ := by
  obtain ⟨hmac, hkey, h⟩ := bind_ok.mp h
  obtain ⟨-, h⟩ := if_error_ok.mp h
  obtain ⟨existing, hfetch, h⟩ := bind_ok.mp h
  obtain ⟨-, h⟩ := if_error_ok.mp h
  obtain ⟨-, h⟩ := if_error_ok.mp h
  obtain ⟨-, h⟩ := if_error_ok.mp h
  obtain ⟨row, hrow, h⟩ := bind_ok.mp h
  exact ⟨hmac, existing, row, keyOf_ok.mp hkey, hfetch, hrow, (Except.ok.inj h).symm⟩

theorem transitionDeviceState_ok {new expected : Str} {o : Plane.Outcome}
    (h : P.transitionDeviceState rows tenant device new expected = .ok o) :
    ∃ hmac d state row, P.key tenant = some hmac ∧ P.fetch hmac rows tenant device = .ok (some d) ∧
      P.sign hmac { d with state := state } = .ok row ∧
      o = ⟨[d], [{ d with state := state }], [row]⟩ := by
  obtain ⟨hmac, hkey, h⟩ := bind_ok.mp h
  obtain ⟨-, h⟩ := if_error_ok.mp h
  split at h
  · rename_i state expected' hnew hexpected
    obtain ⟨current, hfetch, h⟩ := bind_ok.mp h
    cases current with
    | none => cases h
    | some d =>
      obtain ⟨-, h⟩ := if_error_ok.mp h
      obtain ⟨-, h⟩ := if_error_ok.mp h
      obtain ⟨row, hrow, h⟩ := bind_ok.mp h
      exact ⟨hmac, d, state, row, keyOf_ok.mp hkey, hfetch, hrow, (Except.ok.inj h).symm⟩
  · cases h

theorem admit_ok (h : P.admitDevice hmac rows tenant device = .ok d) :
    P.fetch hmac rows tenant device = .ok (some d) := by
  obtain ⟨current, hfetch, h⟩ := bind_ok.mp h
  cases current with
  | none => cases h
  | some d' =>
    obtain ⟨-, h⟩ := if_error_ok.mp h
    obtain rfl := Except.ok.inj h
    exact hfetch

theorem ingestBatch_ok {b : Plane.Batch} {o : Plane.Outcome} (h : P.ingestBatch rows b = .ok o) :
    ∃ (hmac : Json → Str) (ids : List Str) (devices : List FleetDevice) (written : List Row),
      P.key b.tenant = some hmac ∧
      ids.mapM (P.admitDevice hmac rows b.tenant) = .ok devices ∧
      devices.mapM (fun d => P.sign hmac { d with lastSeen := .real b.receivedAt }) = .ok written ∧
      o = ⟨devices, [], written⟩ := by
  obtain ⟨hmac, hkey, h⟩ := bind_ok.mp h
  obtain ⟨-, h⟩ := if_error_ok.mp h
  obtain ⟨ids, -, h⟩ := bind_ok.mp h
  obtain ⟨devices, hdevices, h⟩ := bind_ok.mp h
  obtain ⟨-, -, h⟩ := bind_ok.mp h
  obtain ⟨written, hwritten, h⟩ := bind_ok.mp h
  exact ⟨hmac, ids, devices, written, keyOf_ok.mp hkey, hdevices, hwritten, (Except.ok.inj h).symm⟩

theorem devices_ok {o : Plane.Outcome} (h : P.devices rows tenant = .ok o) :
    ∃ hmac devices, P.key tenant = some hmac ∧
      (Plane.tenantRows rows tenant).mapM (P.verify hmac) = .ok devices ∧
      o = ⟨devices, devices, []⟩ := by
  obtain ⟨hmac, hkey, h⟩ := bind_ok.mp h
  obtain ⟨devices, hdevices, h⟩ := bind_ok.mp h
  exact ⟨hmac, devices, keyOf_ok.mp hkey, hdevices, (Except.ok.inj h).symm⟩

/-- Every row that an operation writes has the HMAC of its values. -/
theorem call_written {c : Plane.Call} {o : Plane.Outcome} (h : P.call rows c = .ok o) :
    ∀ row ∈ o.written, P.Sealed row := by
  intro row hrow
  cases c with
  | registerDevice dev stamp =>
    obtain ⟨hmac, existing, row', hkey, -, hsign, rfl⟩ := registerDevice_ok h
    obtain rfl := List.mem_singleton.mp hrow
    exact sign_sealed (d := { dev with lastSeen := .real stamp }) hkey hsign
  | transitionDeviceState tenant device new expected =>
    obtain ⟨hmac, d, state, row', hkey, hfetch, hsign, rfl⟩ := transitionDeviceState_ok h
    obtain rfl := List.mem_singleton.mp hrow
    obtain ⟨-, -, -, rfl, -⟩ := fetch_some hfetch
    exact sign_sealed (d := { d with state := state }) hkey hsign
  | ingestBatch b =>
    obtain ⟨hmac, ids, devices, written, hkey, hdevices, hwritten, rfl⟩ := ingestBatch_ok h
    obtain ⟨d, hd, hsign⟩ := of_mem_mapM hwritten hrow
    obtain ⟨id, -, hadmit⟩ := of_mem_mapM hdevices hd
    obtain ⟨-, -, -, htenant, -⟩ := fetch_some (admit_ok hadmit)
    rw [← htenant] at hkey
    exact sign_sealed (d := { d with lastSeen := .real b.receivedAt }) hkey hsign
  | devices tenant =>
    obtain ⟨hmac, devices, -, -, rfl⟩ := devices_ok h
    cases hrow

/-! ### The table stays in order -/

theorem store_keys (rows : List Row) (row : Row) : (store rows row).map Row.key =
    if row.key ∈ rows.map Row.key then rows.map Row.key else rows.map Row.key ++ [row.key] := by
  rw [store]
  by_cases h : ∃ r ∈ rows, r.key = row.key
  · rw [if_pos (by simpa using h), if_pos (List.mem_map.mpr h), List.map_map]
    refine List.map_congr_left fun r _ => ?_
    by_cases hr : r.key = row.key
    · simp [hr]
    · simp [hr]
  · rw [if_neg (by simpa using h), if_neg (fun hmem => h (List.mem_map.mp hmem)), List.map_append]
    rfl

theorem mem_store {row r : Row} (h : r ∈ store rows row) : r = row ∨ r ∈ rows := by
  rw [store] at h
  split at h
  · obtain ⟨q, hq, rfl⟩ := List.mem_map.mp h
    split
    · exact Or.inl rfl
    · exact Or.inr hq
  · exact (List.mem_append.mp h).symm.imp_left List.mem_singleton.mp

theorem foldl_store : ∀ {written rows : List Row}, (rows.map Row.key).Nodup →
    ((written.foldl store rows).map Row.key).Nodup ∧
      ∀ r ∈ written.foldl store rows, r ∈ written ∨ r ∈ rows
  | [], rows, h => ⟨h, fun r hr => Or.inr hr⟩
  | row :: written, rows, h => by
    have hkeys : ((store rows row).map Row.key).Nodup := by
      rw [store_keys]
      split
      · exact h
      · rename_i hfresh
        exact List.nodup_append.mpr ⟨h, List.nodup_singleton _, fun a ha b hb => by
          rw [List.mem_singleton.mp hb]
          rintro rfl
          exact hfresh ha⟩
    obtain ⟨hnodup, hmem⟩ := @foldl_store written _ hkeys
    refine ⟨hnodup, fun r hr => ?_⟩
    rcases hmem r hr with hr | hr
    · exact Or.inl (List.mem_cons_of_mem _ hr)
    · exact (mem_store hr).imp_left fun he => List.mem_cons.mpr (Or.inl he)

/-- One row a key; a row makes a device, and was written by an operation or has no HMAC. -/
structure World.Sound (P : Plane) (w : World) : Prop where
  keys : (w.rows.map Row.key).Nodup
  device : ∀ r ∈ w.rows, ∃ d, FleetDevice.ofValues r.values = .ok d
  origin : ∀ r ∈ w.rows, r.recordHmac = .text [] ∨ r ∈ w.written
  isSealed : ∀ r ∈ w.written, P.Sealed r

theorem Plane.Sealed.readable {r : Row} (h : P.Sealed r) :
    ∃ d, FleetDevice.ofValues r.values = .ok d := by
  obtain ⟨-, -, j, -, -, htext, -⟩ := h
  rw [Plane.textOf] at htext
  split at htext
  · rename_i d hd
    exact ⟨d, hd⟩
  · cases htext

theorem World.Sound.exec {w : World} (h : w.Sound P) (c : Plane.Call) : (w.exec P c).Sound P := by
  rw [World.exec]
  rcases hc : P.call w.rows c with e | o
  · exact h
  · have hwritten := call_written hc
    obtain ⟨hkeys, hmem⟩ := @foldl_store o.written _ h.keys
    refine ⟨hkeys, fun r hr => ?_, fun r hr => ?_, fun r hr => ?_⟩
    · rcases hmem r hr with hr | hr
      · exact (hwritten r hr).readable
      · exact h.device r hr
    · rcases hmem r hr with hr | hr
      · exact Or.inr (List.mem_append_right _ hr)
      · exact (h.origin r hr).imp_right (List.mem_append_left _)
    · rcases List.mem_append.mp hr with hr | hr
      · exact h.isSealed r hr
      · exact hwritten r hr

theorem World.Sound.after (h : Legacy rows) (calls : List Plane.Call) :
    (World.after P rows calls).Sound P := by
  induction calls using List.reverseRecOn with
  | nil => exact ⟨h.keys, h.device, fun r hr => Or.inl (h.blank r hr), fun r hr => by cases hr⟩
  | append_singleton calls c ih =>
    rw [World.after, List.foldl_append]
    exact ih.exec c

/-! ### Edited rows -/

variable {f : Row → Row}

theorem find_map (hkey : ∀ r, (f r).key = r.key) :
    Plane.find (rows.map f) tenant device = (Plane.find rows tenant device).map f := by
  rw [Plane.find, List.find?_map, Plane.find]
  congr 2
  funext r
  have hr := Prod.mk.inj (hkey r)
  simp [Function.comp, hr.1, hr.2]

theorem tenantRows_map (hkey : ∀ r, (f r).key = r.key) :
    Plane.tenantRows (rows.map f) tenant = (Plane.tenantRows rows tenant).map f := by
  have hsort : ∀ a b, Plane.byDevice a b ↔ Plane.byDevice (f a) (f b) := by
    intro a b
    rw [Plane.byDevice, Plane.byDevice, (Prod.mk.inj (hkey a)).2, (Prod.mk.inj (hkey b)).2]
  rw [Plane.tenantRows, Plane.tenantRows, List.filter_map,
    List.map_insertionSort Plane.byDevice Plane.byDevice f _ fun a _ b _ => hsort a b]
  congr 3
  funext r
  simp [Function.comp, (Prod.mk.inj (hkey r)).1]

/-- Verifying an edited row raises, or finds what it found before. -/
def Verified (P : Plane) (rows : List Row) (f : Row → Row) : Prop :=
  ∀ t hmac, P.key t = some hmac → ∀ r ∈ rows, r.values.tenantId = .text t →
    Refuses (P.verify hmac (f r)) (P.verify hmac r)

theorem fetch_refuses (hkey : ∀ r, (f r).key = r.key) (hf : Verified P rows f)
    (htenant : P.key tenant = some hmac) : Refuses (P.fetch hmac (rows.map f) tenant device)
      (P.fetch hmac rows tenant device) := by
  rw [Plane.fetch, Plane.fetch, find_map hkey]
  rcases hr : Plane.find rows tenant device with _ | r
  · exact .refl _
  · obtain ⟨hmem, ht, -⟩ := find_some hr
    exact (hf tenant hmac htenant r hmem ht).map some

/-- Every operation raises on the edited rows, or does what it does on the others. -/
theorem call_refuses (hkey : ∀ r, (f r).key = r.key) (hf : Verified P rows f) (c : Plane.Call) :
    Refuses (P.call (rows.map f) c) (P.call rows c) := by
  have hkeyed : ∀ (t : Str) (g g' : (Json → Str) → Except PlaneError Plane.Outcome),
      (∀ hmac, P.key t = some hmac → Refuses (g hmac) (g' hmac)) →
        Refuses (P.keyOf t >>= g) (P.keyOf t >>= g') := by
    intro t g g' h
    rcases hk : P.keyOf t with e | hmac
    · exact .refl _
    · exact h hmac (keyOf_ok.mp hk)
  cases c with
  | registerDevice dev stamp =>
    refine hkeyed _ _ _ fun hmac hk => ?_
    split
    · exact .refl _
    · exact (fetch_refuses hkey hf hk).bind fun _ => .refl _
  | transitionDeviceState tenant device new expected =>
    refine hkeyed _ _ _ fun hmac hk => ?_
    split
    · exact .refl _
    · split
      · exact (fetch_refuses hkey hf hk).bind fun _ => .refl _
      · exact .refl _
  | ingestBatch b =>
    refine hkeyed _ _ _ fun hmac hk => ?_
    split
    · exact .refl _
    · refine (Refuses.refl _).bind fun ids => ?_
      refine (Refuses.mapM fun id _ => ?_).bind fun _ => .refl _
      exact (fetch_refuses hkey hf hk).bind fun _ => .refl _
  | devices tenant =>
    refine hkeyed _ _ _ fun hmac hk => ?_
    rw [tenantRows_map hkey]
    refine Refuses.bind ?_ fun _ => .refl _
    rw [List.mapM_map]
    refine Refuses.mapM fun r hr => ?_
    obtain ⟨hmem, ht⟩ := List.mem_filter.mp ((List.perm_insertionSort Plane.byDevice _).subset hr)
    exact hf tenant hmac hk r hmem (by simpa using ht)

/-! ### Changes of a row -/

theorem edit_mem {r r' q : Row} (h : q ∈ edit r r' rows) : q = r' ∨ (q ∈ rows ∧ q ≠ r) := by
  obtain ⟨p, hp, rfl⟩ := List.mem_map.mp h
  split
  · exact Or.inl rfl
  · rename_i hne
    exact Or.inr ⟨hp, hne⟩

theorem World.Sound.unique {w : World} (h : w.Sound P) {q r : Row} (hq : q ∈ w.rows)
    (hr : r ∈ w.rows) (hkey : q.key = r.key) : q = r :=
  List.inj_on_of_nodup_map h.keys hq hr hkey

/-- The HMAC of a sealed row fits under the key of its tenant. -/
theorem Plane.Sealed.verified {r : Row} (h : P.Sealed r) (ht : r.values.tenantId = .text tenant)
    (hk : P.key tenant = some hmac) :
    ∃ j, P.textOf r = some j ∧ r.recordHmac = .text (hmac j) := by
  obtain ⟨t, hmac', j, ht', hk', htext, htag⟩ := h
  obtain rfl := TextCell.text.inj (ht.symm.trans ht')
  obtain rfl := Option.some.inj (hk.symm.trans hk')
  exact ⟨j, htext, htag⟩

theorem World.Sound.verify {w : World} (h : w.Sound P) {r : Row} (hr : r ∈ w.rows)
    (ht : r.values.tenantId = .text tenant) (hk : P.key tenant = some hmac) :
    ∃ d, P.verify hmac r = .ok d := by
  obtain ⟨d, hd⟩ := h.device r hr
  rcases h.origin r hr with hblank | hwritten
  · exact ⟨d, verify_ok.mpr ⟨hd, Or.inl hblank⟩⟩
  · exact ⟨d, verify_ok.mpr ⟨hd, Or.inr ((h.isSealed r hwritten).verified ht hk)⟩⟩

theorem Plane.Harmless.isProtected {w : World} (hw : w.Sound P) {r r' : Row} (hr : r ∈ w.rows)
    (hun : P.Unforged w.written r') (h : P.Harmless w.written r r') : P.Protected w.rows r r' := by
  refine fun c => call_refuses (fun q => ?_) (fun t hmac hk q hq ht => ?_) c
  · by_cases hqr : q = r
    · rw [if_pos hqr, hqr]
      exact h.key
    · rw [if_neg hqr]
  · by_cases hqr : q = r
    · subst hqr
      rw [if_pos rfl]
      obtain ⟨d, hd⟩ := hw.verify hq ht hk
      rcases hx : P.verify hmac r' with e | d'
      · exact Or.inl ⟨e, rfl⟩
      · obtain ⟨hd', htag⟩ := verify_ok.mp hx
        rcases h.changed with hvalues | hinvalid | ⟨hblank, hrestored⟩
        · rw [hvalues, (verify_ok.mp hd).1] at hd'
          rw [hd]
          exact Or.inr hd'.symm
        · exact absurd hd' (hinvalid d')
        · obtain ⟨j, htext, htag⟩ := htag.resolve_left hblank
          have ht' := (congrArg Prod.fst h.key).trans ht
          exact absurd (hun ⟨t, hmac, j, ht', hk, htext, htag⟩) hrestored
    · rw [if_neg hqr]
      exact .refl _

/-- A device whose row has a canonical text has one in any state and at any time. -/
theorem core_touched {j : Json} (h : P.core d = .ok j) (state : DeviceState) (x : Double) :
    ∃ j', P.core { d with state := state, lastSeen := .real (.finite x) } = .ok j' := by
  rw [Plane.core] at h ⊢
  split at h
  · split at h
    · rename_i publicKey platform version hkey hplatform hversion
      simp only [Plane.float, hkey, hplatform, hversion]
      rw [dumps_record]
      · exact ⟨_, rfl⟩
      · intro f hf
        simp only [List.mem_cons, List.not_mem_nil, or_false] at hf
        rcases hf with rfl | rfl | rfl | rfl | rfl | rfl | rfl | rfl | rfl <;> rfl
    · cases h
  · cases h

/-- A device without a row is enrolled. -/
theorem registerDevice_fresh {j : Json} {x : Double} (hx : 0 < x.val) (hstate : d.state = .active)
    (hk : P.key d.tenantId = some hmac) (hfind : Plane.find rows d.tenantId d.deviceId = none)
    (hcore : P.core { d with lastSeen := .real (.finite x) } = .ok j) :
    ∃ o, P.registerDevice rows d (.finite x) = .ok o ∧ o.seen = [] := by
  have hstamp : Plane.positive (.finite x) = true := decide_eq_true hx
  have hfetch : P.fetch hmac rows d.tenantId d.deviceId = .ok none := by rw [Plane.fetch, hfind]
  have hsign : P.sign hmac { d with lastSeen := .real (.finite x) } =
      .ok ⟨FleetDevice.values { d with lastSeen := .real (.finite x) }, .text (hmac j)⟩ := by
    rw [Plane.sign, hcore]
    rfl
  refine ⟨⟨[], [], [⟨FleetDevice.values { d with lastSeen := .real (.finite x) },
    .text (hmac j)⟩]⟩, ?_, rfl⟩
  rw [Plane.registerDevice, keyOf_ok.mpr hk]
  simp only [bind, Except.bind, hstamp, hfetch, hsign]
  simp [hstate]

/-- With its row under another key, a device would be enrolled anew. -/
theorem key_of_protected {w : World} (hw : w.Sound P) {r r' : Row} (hr : r ∈ w.rows)
    (hwritten : r ∈ w.written) (hfresh : r'.key = r.key ∨ ∀ q ∈ w.rows, q.key ≠ r'.key)
    (h : P.Protected w.rows r r') : r'.key = r.key := by
  refine hfresh.resolve_right fun hfresh => ?_
  obtain ⟨t, hmac, j, ht, hk, htext, -⟩ := hw.isSealed r hwritten
  obtain ⟨d, hd⟩ := hw.device r hr
  rw [Plane.textOf, hd] at htext
  obtain ⟨x, hx⟩ : ∃ x : Double, 0 < x.val :=
    ⟨Double.ofNat 1 Double.one_fits, by rw [Double.ofNat_val]; positivity⟩
  rcases hcore : P.core d with e | j'
  · simp [hcore, Except.toOption] at htext
  · obtain ⟨j'', hj''⟩ := core_touched hcore .active x
    have hkey : r.key = (.text d.tenantId, .text d.deviceId) := by
      rw [Row.key, ← values_ofValues hd]
      rfl
    have htenant : d.tenantId = t := TextCell.text.inj ((congrArg Prod.fst hkey).symm.trans ht)
    have hnone : Plane.find (edit r r' w.rows) d.tenantId d.deviceId = none := by
      refine List.find?_eq_none.mpr fun q hq => ?_
      simp only [decide_eq_true_eq]
      rintro ⟨hq1, hq2⟩
      have hqkey : q.key = r.key := hkey ▸ Prod.ext hq1 hq2
      rcases edit_mem hq with rfl | ⟨hmem, hne⟩
      · exact hfresh r hr hqkey.symm
      · exact hne (hw.unique hmem hr hqkey)
    obtain ⟨o, ho, hseen⟩ := registerDevice_fresh (d := { d with state := .active }) hx rfl
      (htenant ▸ hk) hnone hj''
    rcases h (.registerDevice { d with state := .active } (.finite x)) with ⟨e, he⟩ | he
    · rw [Plane.call, ho] at he
      cases he
    -- the row was there to be read
    · rw [Plane.call, ho] at he
      obtain ⟨hmac', existing, row, -, hfetch, -, rfl⟩ := registerDevice_ok he.symm
      have hfound : (Plane.find w.rows d.tenantId d.deviceId).isSome = true := by
        refine List.find?_isSome.mpr ⟨r, hr, ?_⟩
        simpa [Row.key] using hkey
      rw [Plane.fetch] at hfetch
      rcases hfind : Plane.find w.rows d.tenantId d.deviceId with _ | q
      · rw [hfind] at hfound
        cases hfound
      · simp only [hfind] at hfetch
        obtain ⟨d', -, rfl⟩ := map_ok.mp hfetch
        cases hseen

/-- A row that is accepted is listed. -/
theorem devices_listed {r : Row} (hall : ∀ q ∈ rows, q.values.tenantId = .text tenant →
      ∃ d, P.verify hmac q = .ok d) (hk : P.key tenant = some hmac) (hr : r ∈ rows)
    (ht : r.values.tenantId = .text tenant) (hd : P.verify hmac r = .ok d) :
    ∃ o, P.devices rows tenant = .ok o ∧ d ∈ o.seen := by
  have hmem : r ∈ Plane.tenantRows rows tenant :=
    (List.perm_insertionSort Plane.byDevice _).mem_iff.mpr
      (List.mem_filter.mpr ⟨hr, by simpa using ht⟩)
  obtain ⟨ds, hds⟩ := mapM_returns (f := P.verify hmac) (l := Plane.tenantRows rows tenant)
    fun q hq => by
      obtain ⟨hq, hqt⟩ := List.mem_filter.mp ((List.perm_insertionSort Plane.byDevice _).subset hq)
      exact hall q hq (by simpa using hqt)
  refine ⟨⟨ds, ds, []⟩, ?_, ?_⟩
  · rw [Plane.devices, keyOf_ok.mpr hk]
    simp only [bind, Except.bind, hds]
  · obtain ⟨d', hd', hmem'⟩ := mem_mapM hds hmem
    rw [hd] at hd'
    obtain rfl := Except.ok.inj hd'
    exact hmem'

/-- CORRECT: a change of a row that an operation wrote is without effect, or makes every operation
    that would read the row raise, exactly when it is harmless. -/
theorem protected_iff_harmless {calls : List Plane.Call} (hlegacy : Legacy rows) {r r' : Row}
    (hr : r ∈ (World.after P rows calls).rows) (hwritten : r ∈ (World.after P rows calls).written)
    (hkey : r'.key = r.key ∨ ∀ q ∈ (World.after P rows calls).rows, q.key ≠ r'.key)
    (hunforged : P.Unforged (World.after P rows calls).written r') :
    P.Protected (World.after P rows calls).rows r r' ↔
      P.Harmless (World.after P rows calls).written r r' := by
  have hw := World.Sound.after (P := P) hlegacy calls
  generalize World.after P rows calls = w at hr hwritten hkey hunforged hw
  refine ⟨fun h => ?_, fun h => h.isProtected hw hr hunforged⟩
  have hkept := key_of_protected hw hr hwritten hkey h
  refine ⟨hkept, ?_⟩
  by_contra hnot
  rw [not_or, not_or, not_forall] at hnot
  obtain ⟨hvalues, ⟨d', hd'⟩, haccepted⟩ := hnot
  rw [not_not] at hd'
  obtain ⟨t, hmac, -, ht, hk, -, -⟩ := hw.isSealed r hwritten
  have ht' : r'.values.tenantId = .text t := (congrArg Prod.fst hkept).trans ht
  -- the changed row passes: it is not verified, or it was written before
  have hverify : P.verify hmac r' = .ok d' := by
    refine verify_ok.mpr ⟨hd', ?_⟩
    by_cases hblank : r'.recordHmac = .text []
    · exact Or.inl hblank
    · obtain ⟨q, hq, hqt, htag, j, hqj, hj⟩ := by_contra fun hno => haccepted ⟨hblank, hno⟩
      obtain ⟨i, hi, htag'⟩ := (hw.isSealed q hq).verified (hqt.trans ht') hk
      obtain rfl := Option.some.inj (hqj.symm.trans hi)
      exact Or.inr ⟨j, hj, htag.symm.trans htag'⟩
  have hmem : r' ∈ edit r r' w.rows := List.mem_map.mpr ⟨r, hr, if_pos rfl⟩
  have hall : ∀ q ∈ edit r r' w.rows, q.values.tenantId = .text t →
      ∃ d, P.verify hmac q = .ok d := by
    intro q hq hqt
    rcases edit_mem hq with rfl | ⟨hq, -⟩
    · exact ⟨d', hverify⟩
    · exact hw.verify hq hqt hk
  obtain ⟨o, ho, hseen⟩ := devices_listed hall hk hmem ht' hverify
  rcases h (.devices t) with ⟨e, he⟩ | he
  · rw [Plane.call, ho] at he
    cases he
  · rw [Plane.call, ho] at he
    obtain ⟨hmac', ds, -, hds, rfl⟩ := devices_ok he.symm
    obtain ⟨q, hq, hqd⟩ := of_mem_mapM hds hseen
    have hq' := (List.mem_filter.mp ((List.perm_insertionSort Plane.byDevice _).subset hq)).1
    have hsame : q.values = r'.values :=
      (values_ofValues (verify_ok.mp hqd).1).symm.trans (values_ofValues hd')
    have hqr : q.key = r.key := by
      rw [← hkept, Row.key, hsame]
      rfl
    obtain rfl := hw.unique hq' hr hqr
    exact hvalues hsame.symm

/-! ### A revoked device -/

/-- A blank HMAC is not one that a key gives. -/
theorem unforged_of_blank {written : List Row} {r : Row} (h : r.recordHmac = .text []) :
    P.Unforged written r := by
  rintro ⟨t, hmac, j, -, hk, -, htag⟩
  have hhex := P.key_hex t hmac j hk
  rw [← TextCell.text.inj (h.symm.trans htag)] at hhex
  cases hhex

/-- Digests that tell texts of even and odd length apart. -/
def sampleDigest (j : Json) : Str :=
  List.replicate 64 (if j.length (fun _ => "1.0".toList) 0 % 2 = 0 then 'a' else 'b')

def samplePlane : Plane where
  repr _ := "1.0".toList
  parseFloat _ := none
  key t := if t = "tenant-a".toList then some sampleDigest else none
  key_id t h ht := by
    split at ht
    · rename_i he
      rw [he]
      decide
    · cases ht
  key_hex t h text ht := by
    split at ht
    · obtain rfl := Option.some.inj ht
      rw [sampleDigest]
      split <;> decide
    · cases ht

def sampleDevice : FleetDevice :=
  { tenantId := "tenant-a".toList, deviceId := "device-a".toList, publicKey := .text "key".toList
    hostnameToken := "tok_a".toList, platform := .text "windows".toList
    version := .text "1.9.4".toList, groupId := "default".toList, state := .active
    lastSeen := .real (.finite Double.zero), identified := by decide, described := by decide }

/-- The clock stands at one second. -/
def sampleStamp : PyFloat := .finite (Double.ofNat 1 Double.one_fits)

def sampleCalls : List Plane.Call :=
  [.registerDevice sampleDevice sampleStamp,
    .transitionDeviceState "tenant-a".toList "device-a".toList "revoked".toList "active".toList]

/-- The row of the revoked device. -/
def sampleRow : Row :=
  ⟨FleetDevice.values { sampleDevice with state := .revoked, lastSeen := .real sampleStamp },
    .text (List.replicate 64 'b')⟩

/-- The device is active again, and the HMAC is gone. -/
def Row.revived (r : Row) : Row :=
  ⟨{ r.values with state := .text DeviceState.active.text }, .text []⟩

def sampleBatch : Plane.Batch :=
  ⟨"tenant-a".toList, sampleStamp, .ok ["device-a".toList], .ok ()⟩

theorem sample_written : sampleRow ∈ (World.after samplePlane [] sampleCalls).rows ∧
    sampleRow ∈ (World.after samplePlane [] sampleCalls).written := by
  decide +kernel

theorem protected_iff_harmless_sample :
    samplePlane.Protected (World.after samplePlane [] sampleCalls).rows sampleRow sampleRow.revived ↔
      samplePlane.Harmless (World.after samplePlane [] sampleCalls).written sampleRow
        sampleRow.revived :=
  protected_iff_harmless (⟨List.nodup_nil, by simp, by simp⟩ : Legacy []) sample_written.1 sample_written.2
    (Or.inl rfl) (unforged_of_blank rfl)

/-- A device was revoked. Somebody who has no key sets its state back and blanks the HMAC, and
    `ingest_batch`, which refused the device, takes its events. -/
theorem revoked_revived : sampleRow ∈ (World.after samplePlane [] sampleCalls).rows ∧
    sampleRow.values.state = .text DeviceState.revoked.text ∧
    samplePlane.Unforged (World.after samplePlane [] sampleCalls).written sampleRow.revived ∧
    (samplePlane.ingestBatch (World.after samplePlane [] sampleCalls).rows sampleBatch).isOk =
      false ∧
    (samplePlane.ingestBatch (edit sampleRow sampleRow.revived
      (World.after samplePlane [] sampleCalls).rows) sampleBatch).isOk = true := by
  exact ⟨sample_written.1, rfl, unforged_of_blank rfl, by decide +kernel, by decide +kernel⟩

end Angerona.Fleet.Devices
