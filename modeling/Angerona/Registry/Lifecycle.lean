import Angerona.Registry.Governance

/-!
    The packages of a detection registry: staging, activation, rollback and retirement.

    Every method runs its locked section under the policy of the root. Package files are kept by
    digest and never change; a detached signature is kept beside them when it verified. `valid` says
    which packages are unexpired and pass their performance gate at a call. -/

namespace Angerona.Registry
open Text Effect

abbrev Raw := List UInt8

/-- What packages and signatures are, apart from the time. -/
structure Format where
  /-- The package id and the digest of a well-formed package. -/
  ident : Raw → Option (Str × Str)
  /-- The key id under which a signature verifies in a trust store. -/
  publisher : Str → Raw → Raw → Option Str

/-- The registry directory: the governed root, package files and signature files by digest. -/
structure Depot where
  root : World
  files : Str → Option Raw
  sigs : Str → Option Raw

abbrev Op := Effect Raised Depot

/-- A step of the root. -/
def inRoot {α : Type} (m : Deed α) : Op α := zoom Depot.root (fun root s => { s with root }) m

/-- A `ValidationReport`. -/
structure Report where
  ok : Bool
  state : String
  packageId : Option Str
  digest : Option Str
  error : Option Raised
  previousDigest : Option Str

/-- The packages that are unexpired at a call. -/
abbrev Valid := Raw → Bool

variable (S : Seals) (F : Format)

/-- `load_package`. -/
def load (valid : Valid) (raw : Raw) : Option (Str × Str) := if valid raw then F.ident raw else none

/-- `_verify_signature`: the signer, if the package is signed; raises for a bad signature. -/
def judge (trusted : Option Str) (raw : Raw) (sig : Option Raw) : Except Raised (Option Str) :=
  match trusted, sig with
  | some path, some sig =>
    match F.publisher path raw sig with
    | some signer => .ok (some signer)
    | none => .error (.validation "publisher signature verification failed")
  | _, _ => .ok none

/-! ### Records -/

def Packages.record (packages : Packages) (packageId digest : Str) : Option Record :=
  (packages.get? packageId).bind (·.get? digest)

def Packages.setRecord (packages : Packages) (packageId digest : Str) (record : Record) : Packages :=
  packages.set packageId (((packages.get? packageId).getD Dict.empty).set digest record)

/-- The first digest that is active, other than `digest`. -/
def firstActive (versions : Dict Str Record) (digest : Option Str) : Option Str :=
  (versions.items.find? fun i => i.2.state = .active ∧ some i.1 ≠ digest).map Prod.fst

/-! ### Staging -/

/-- The record a staged package gets. -/
def stagedRecord (packages : Packages) (packageId digest : Str) (signer : Option Str) : Record :=
  let record := (packages.record packageId digest).getD ⟨.staged, none, false, none⟩
  { record with
    state := if record.state = .active then .active else .staged
    trusted := signer.isSome
    signer }

/-- Keeps the bytes of a package, and its signature when it verified. -/
def retain (digest : Str) (raw : Raw) (sig : Option Raw) (signer : Option Str) : Op Unit := do
  let s ← read
  check (s.files digest = none ∨ s.files digest = some raw)
    (.validation "digest collision with different package bytes")
  modify fun s => { s with
    files := Function.update s.files digest (some raw)
    sigs := if signer.isSome then Function.update s.sigs digest sig else s.sigs }

def stageLocked (packageId digest : Str) (raw : Raw) (sig : Option Raw) (signer : Option Str) :
    Op Report := do
  retain digest raw sig signer
  let m ← inRoot readManifest
  let record := stagedRecord m.packages packageId digest signer
  inRoot (writeManifest { m with packages := m.packages.setRecord packageId digest record })
  pure ⟨true, if record.state = .active then "active" else "staged", some packageId, some digest,
    none, none⟩

/-- `stage`. -/
def stage (h : Handle) (valid : Valid) (raw : Raw) (sig : Option Raw) : Op Report :=
  handle (do
    let i ← demand (load F valid raw) (.validation "package validation failed")
    let signer ← lift (judge F h.trusted raw sig)
    stageLocked i.1 i.2 raw sig signer) fun e => ⟨false, "quarantined", none, none, some e, none⟩

/-! ### Activation -/

/-- The gates a package passes again at activation and at each read. -/
def vet (h : Handle) (valid : Valid) (signed : Bool) (s : Depot) (packageId digest : Str)
    (record : Record) : Except Raised Unit :=
  match (s.files digest).bind fun raw => (load F valid raw).map fun i => (raw, i) with
  | none => .error (.validation "package could not be read")
  | some (raw, i) =>
    if i ≠ (packageId, digest) then
      .error (.validation "package identity does not match registry request")
    else
      match judge F h.trusted raw (s.sigs digest) with
      | .error e => .error e
      | .ok signer =>
        if signer.isSome ≠ record.trusted ∨ signer ≠ record.signer then
          .error (.validation "publisher trust metadata changed")
        else if signed = true ∧ signer = none then
          .error (.validation "activation policy requires a trusted publisher signature")
        else .ok ()

/-- The versions of a package when `digest` becomes active. -/
def activated (versions : Dict Str Record) (digest : Str) (record : Record) : Dict Str Record :=
  (versions.map fun other item =>
    if item.state = .active ∧ other ≠ digest then { item with state := .retired } else item).set
    digest { record with
      state := .active
      previousDigest := firstActive versions (some digest) }

/-- `_prepare_activation_locked`, after the policy: the packages to publish, and the report. -/
def prepare (h : Handle) (valid : Valid) (signed : Bool) (s : Depot) (packages : Packages)
    (packageId digest : Str) : Packages × Report :=
  let versions := (packages.get? packageId).getD Dict.empty
  match versions.get? digest with
  | none => (packages, ⟨false, "quarantined", some packageId, some digest,
      some (.validation "digest is not staged or retained"), none⟩)
  | some record =>
    if record.state = .quarantined then
      (packages, ⟨false, "quarantined", some packageId, some digest,
        some (.validation "digest is not staged or retained"), none⟩)
    else
      match vet F h valid signed s packageId digest record with
      | .error e => (packages.setRecord packageId digest { record with state := .quarantined },
          ⟨false, "quarantined", some packageId, some digest, some e, none⟩)
      | .ok () => (packages.set packageId (activated versions digest record),
          ⟨true, "active", some packageId, some digest, none, firstActive versions (some digest)⟩)

/-- `_activate_locked`. -/
def activateLocked (h : Handle) (valid : Valid) (packageId digest : Str) : Op Report := do
  let m ← inRoot readManifest
  let p ← inRoot (assertManifestPolicy S h true m)
  let s ← read
  let out := prepare F h valid p.requireSigned s m.packages packageId digest
  inRoot (writeManifest { m with packages := out.1 })
  pure out.2

/-- A method of the lifecycle: its authority, its locked section, and the report of what is
    raised. -/
def governed (h : Handle) (capability : Option Authority) (packageId : Str) (digest : Option Str)
    (m : Op Report) : Op Report :=
  if capability = h.authority then
    handle m fun e => ⟨false, "quarantined", some packageId, digest, some e, none⟩
  else
    handle (do
      inRoot (assertTransitionAuthority h capability)
      m) fun e => ⟨false, "governance-required", some packageId, digest, some e, none⟩

/-- `activate`. -/
def activate (h : Handle) (capability : Option Authority) (valid : Valid) (packageId digest : Str) :
    Op Report :=
  governed h capability packageId (some digest) (activateLocked S F h valid packageId digest)

/-- The predecessor that the active version of a package records. -/
def rollbackTarget (packages : Packages) (packageId : Str) : Option Str := do
  let versions ← packages.get? packageId
  let active ← firstActive versions none
  let record ← versions.get? active
  record.previousDigest

/-- `rollback`. -/
def rollback (h : Handle) (capability : Option Authority) (valid : Valid) (packageId : Str) :
    Op Report :=
  governed h capability packageId none (do
    let m ← inRoot readManifest
    (rollbackTarget m.packages packageId).elim
      (pure ⟨false, "quarantined", some packageId, none,
        some (.validation "no rollback target is recorded"), none⟩)
      fun digest => activateLocked S F h valid packageId digest)

/-- The locked section of `retire`. -/
def retireLocked (h : Handle) (packageId digest : Str) : Op Report := do
  let m ← inRoot readManifest
  let _ ← inRoot (assertManifestPolicy S h true m)
  (m.packages.record packageId digest).elim
    (pure ⟨false, "quarantined", some packageId, some digest,
      some (.validation "unknown package digest"), none⟩)
    fun record => do
      inRoot (writeManifest { m with
        packages := m.packages.setRecord packageId digest { record with state := .retired } })
      pure ⟨true, "retired", some packageId, some digest, none, none⟩

/-- `retire`. -/
def retire (h : Handle) (capability : Option Authority) (packageId digest : Str) : Op Report :=
  governed h capability packageId (some digest) (retireLocked S h packageId digest)

/-! ### Reading -/

/-- `_trusted_active_locked`, of a version whose state is active. -/
def trustedActive (h : Handle) (valid : Valid) (m : Manifest) (packageId digest : Str) :
    Op (Option Str) := do
  let p ← inRoot (assertManifestPolicy S h false m)
  let s ← read
  (m.packages.record packageId digest).elim (pure none) fun record =>
    match vet F h valid p.requireSigned s packageId digest record with
    | .ok () => pure (some digest)
    | .error _ => do
      inRoot (writeManifest { m with
        packages := m.packages.setRecord packageId digest { record with state := .quarantined } })
      pure none

/-- `active`: the digest of the package it returns. -/
def active (h : Handle) (valid : Valid) (packageId : Str) : Op (Option Str) :=
  handle (do
    let m ← inRoot readManifest
    (firstActive ((m.packages.get? packageId).getD Dict.empty) none).elim (pure none) fun digest =>
      trustedActive S F h valid m packageId digest) fun _ => none

/-! ### Calls -/

inductive Call where
  | stage (h : Handle) (raw : Raw) (sig : Option Raw)
  | activate (h : Handle) (capability : Option Authority) (packageId digest : Str)
  | rollback (h : Handle) (capability : Option Authority) (packageId : Str)
  | retire (h : Handle) (capability : Option Authority) (packageId digest : Str)
  | active (h : Handle) (packageId : Str)

/-- What a call returns. -/
inductive Reply where
  | report (r : Report)
  | package (digest : Option Str)

def Call.run (valid : Valid) : Call → Op Reply
  | .stage h raw sig => do return .report (← Registry.stage F h valid raw sig)
  | .activate h capability packageId digest => do
    return .report (← Registry.activate S F h capability valid packageId digest)
  | .rollback h capability packageId => do
    return .report (← Registry.rollback S F h capability valid packageId)
  | .retire h capability packageId digest => do
    return .report (← Registry.retire S h capability packageId digest)
  | .active h packageId => do return .package (← Registry.active S F h valid packageId)

end Angerona.Registry
