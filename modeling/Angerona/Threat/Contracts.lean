import Mathlib
import Angerona.Bus.Model
import Angerona.Lib.PyNumber

/-!
    The closed field contracts by which `core/threat.py` recognizes notices that describe the suite
    or the posture of the host.

    The details of an event are the items of a dictionary of loaded values; a list and a tuple are
    not told apart. -/

namespace Angerona.Threat
open Text PyJson Bus

abbrev Details := List (Key × Value)

/-- `details.get(name)`. -/
def Details.item (details : Details) (name : String) : Value := getItem name.toList details

/-- `name in details`. -/
def Details.has (details : Details) (name : String) : Bool :=
  details.any fun item => item.1 = .str name.toList

/-- `set(details) == set(names)`. -/
def Details.hasExactly (details : Details) (names : List String) : Bool :=
  details.all (fun item => names.any fun name => item.1 = .str name.toList) &&
    names.all fun name => details.has name

/-- A value that a contract fixes. -/
inductive Scalar where
  | text (s : String)
  | flag (b : Bool)
  | number (n : ℤ)

/-- `type(value) is type(fixed) and value == fixed`. -/
def sameAs : Value → Scalar → Bool
  | .str t, .text s => t = s.toList
  | .bool a, .flag b => a = b
  | .int a, .number b => a = b
  | _, _ => false

/-- `value == text`. -/
def isText (value : Value) (text : String) : Bool := sameAs value (.text text)

/-- `value is True`. -/
def isTrue (value : Value) : Bool := sameAs value (.flag true)

/-- `value is False`. -/
def isFalse (value : Value) : Bool := sameAs value (.flag false)

/-- `value in texts`. -/
def isOneOf (value : Value) (texts : List String) : Bool := texts.any (isText value)

def isNull : Value → Bool
  | .null => true
  | _ => false

/-- `isinstance(value, str)`. -/
def isStr : Value → Bool
  | .str _ => true
  | _ => false

/-- `type(value) is bool`. -/
def isBool : Value → Bool
  | .bool _ => true
  | _ => false

/-- `type(value) is int`. -/
def isInt : Value → Bool
  | .int _ => true
  | _ => false

/-- `type(value) in (int, float)`. -/
def isNumber : Value → Bool
  | .int _ | .float _ => true
  | _ => false

/-- `isinstance(value, list)`. -/
def isList : Value → Bool
  | .list _ => true
  | _ => false

/-- The texts of a list of texts. -/
def textsOf : Value → Option (List Str)
  | .list values => values.mapM fun value =>
    match value with
    | .str s => some s
    | _ => none
  | _ => none

/-! ### Unavailable collectors -/

structure CollectionFailure where
  module : String
  severity : Severity
  errorField : String
  fixed : List (String × Scalar)

/-- `_COLLECTION_FAILURE_CONTRACTS`. -/
def collectionFailureContracts : List CollectionFailure :=
  [{ module := "app control decision evidence"
     severity := .high
     errorField := "failure_type"
     fixed :=
       [("schema", .text "angerona.app-control-collection-health.v1"),
        ("finding_code", .text "app_control.collection.failed"),
        ("source_channel", .text "Microsoft-Windows-CodeIntegrity/Operational"),
        ("disposition", .text "health"),
        ("sensor_state", .text "blind"),
        ("collector_status", .text "unknown"),
        ("health_percent", .number 25),
        ("collection_complete", .flag false),
        ("observation_only", .flag true),
        ("enforcement_performed", .flag false),
        ("response_authorized", .flag false),
        ("response_authority", .text "observe-only")] },
   { module := "peripheral and dma posture guard"
     severity := .critical
     errorField := "error_type"
     fixed :=
       [("schema", .text "angerona.peripheral-dma-collection-health.v1"),
        ("finding_code", .text "peripheral.collection.failed"),
        ("collector_status", .text "unknown"),
        ("health_percent", .number 10),
        ("collection_complete", .flag false),
        ("enforcement_performed", .flag false),
        ("unknown_state", .flag true),
        ("raw_device_identifiers_omitted", .flag true),
        ("device_control_performed", .flag false),
        ("observation_only", .flag true),
        ("malicious_firmware_protection_claimed", .flag false),
        ("firmware_and_kernel_tampering_out_of_scope", .flag true),
        ("response_authorized", .flag false),
        ("response_authority", .text "observe-only")] },
   { module := "authentication extension integrity guard"
     severity := .high
     errorField := "failure_type"
     fixed :=
       [("schema", .text "angerona.auth-extension-collection-health.v1"),
        ("finding_code", .text "auth_extension.collection.failed"),
        ("collector_status", .text "unknown"),
        ("health_percent", .number 15),
        ("collection_complete", .flag false),
        ("observation_only", .flag true),
        ("enforcement_performed", .flag false),
        ("read_only", .flag true),
        ("response_authorized", .flag false),
        ("response_authority", .text "observe-only"),
        ("attribution", .text "not-assessed"),
        ("capability_mode", .text "observe"),
        ("egress", .text "none"),
        ("raw_paths_omitted", .flag true),
        ("credentials_collected", .flag false),
        ("lsass_memory_accessed", .flag false)] }]

/-- `code is None or type(code) is int`, with the code. -/
def nativeCode : Value → Option (Option ℤ)
  | .null => some none
  | .int n => some (some n)
  | _ => none

/-- The errors of a collector that is not available. -/
def nativeError (module : Str) (error : Value) (code : Option ℤ) : Bool :=
  if isText error "PermissionError" then code = none || code = some 5
  else if isText error "FileNotFoundError" then code = none || code = some 2 || code = some 3
  else if isOneOf error ["ImportError", "ModuleNotFoundError"] then code = none
  else
    isText error "error" && (code = some 5 ||
      (module = "app control decision evidence".toList && code = some 15007))

/-- `_unavailable_collection_health`. -/
def unavailableCollectionHealth (severity : Severity) (details : Details) (module : Str) : Bool :=
  match collectionFailureContracts.find? fun contract => contract.module.toList = module with
  | none => false
  | some contract =>
    severity = contract.severity &&
      details.hasExactly (contract.fixed.map Prod.fst ++ [contract.errorField, "native_error_code"]) &&
      contract.fixed.all (fun field => sameAs (details.item field.1) field.2) &&
      (nativeCode (details.item "native_error_code")).any
        (nativeError module (details.item contract.errorField))

/-! ### Collection and coverage notices -/

/-- One collector of a persistence sweep: its status is known and its error is a text. -/
def knownCollector : Value → Bool
  | .dict collector =>
    isOneOf (Details.item collector "status") ["complete", "partial", "unknown"] &&
      isStr (Details.item collector "error")
  | _ => false

def incompleteCollector : Value → Bool
  | .dict collector => !isText (Details.item collector "status") "complete"
  | _ => false

/-- The coverage of a persistence sweep that is not complete. -/
def incompleteCoverage : Value → Bool
  | .dict coverage =>
    coverage ≠ [] &&
      coverage.all (fun item =>
        (match item.1 with
          | .str _ => true
          | _ => false) && knownCollector item.2) &&
      coverage.any fun item => incompleteCollector item.2
  | _ => false

def isNatural : Value → Bool
  | .int n => 0 ≤ n
  | _ => false

/-- `len(value) == 64` and lower case hexadecimal. -/
def isDigest : Value → Bool
  | .str s => isHex 64 s
  | _ => false

/-- `_collection_health`. -/
def collectionHealth (details : Details) (module : Str) : Bool :=
  let schema := details.item "schema"
  let authorized := details.item "response_authorized"
  let authority := details.item "response_authority"
  if !(isNull authorized || isFalse authorized) ||
      !(isNull authority || isText authority "observe-only") ||
      ["response_contract", "target", "tamper", "hardening", "active_exploitation"].any details.has then
    false
  else if module = "self-integrity monitor".toList then
    (isNull schema || isText schema "angerona.self-integrity-acl-health.v1") &&
      isText (details.item "disposition") "health" &&
      isText (details.item "acl_status") "collection-failed" && isStr (details.item "acl_path")
  else if module = "persistence sweep".toList then
    (isNull schema || isText schema "angerona.persistence-coverage.v1") &&
      isText (details.item "finding_code") "persistence.collector.incomplete" &&
      isFalse authorized && incompleteCoverage (details.item "coverage")
  else if module = "sysmon event bridge".toList then
    isNull schema && isText (details.item "disposition") "health" &&
      isOneOf (details.item "state")
        ["generation-gap-replay", "tail-anchor-missing-replay", "verified", "first-run-tail-anchored",
          "empty-generation-anchored"] &&
      isDigest (details.item "current_generation") &&
      ["cursor", "oldest_record", "newest_record", "replay_from"].all
        (fun key => isNatural (details.item key)) &&
      isOneOf (details.item "cursor_persistence") ["durable", "failed"]
  else false

/-- `_FLEET_UNBOUND_COUNTS`. -/
def fleetUnboundCounts : List String :=
  ["evidence_rows", "retention_drops", "reported_drops", "backpressure_devices", "unhealthy_devices",
    "enrolled_devices", "fresh_devices", "missing_devices", "stale_devices"]

/-- `_FLEET_UNBOUND_FIELDS`. -/
def fleetUnboundFields : List String :=
  ["schema", "health_percent", "exact_reason", "finding_code", "fabric_bound", "observation_only",
    "enforcement_performed", "response_authorized", "response_authority", "remote_shell_available",
    "arbitrary_command_available", "transport_enabled", "transport_available"] ++ fleetUnboundCounts

/-- A text of 1 to 512 characters. -/
def isReason : Value → Bool
  | .str s => 0 < s.length && s.length ≤ 512
  | _ => false

/-- `_coverage_health`. -/
def coverageHealth (details : Details) (module : Str) : Bool :=
  let schema := details.item "schema"
  if !isFalse (details.item "response_authorized") ||
      !isText (details.item "response_authority") "observe-only" then false
  else if module = "fleet health monitor".toList then
    isText schema "angerona.fleet-health-status.v1" && details.hasExactly fleetUnboundFields &&
      isText (details.item "finding_code") "fleet.coverage.unbound" &&
      isFalse (details.item "fabric_bound") && isTrue (details.item "observation_only") &&
      ["enforcement_performed", "remote_shell_available", "arbitrary_command_available",
        "transport_enabled", "transport_available"].all (fun key => isFalse (details.item key)) &&
      sameAs (details.item "health_percent") (.number 35) && isReason (details.item "exact_reason") &&
      fleetUnboundCounts.all fun key => sameAs (details.item key) (.number 0)
  else if module = "process egress lease guard".toList then
    isText schema "angerona.process-egress-guard-status.v1" && isBool (details.item "audit_complete") &&
      isInt (details.item "lost_records") && isTrue (details.item "observation_only") &&
      isFalse (details.item "enforcement_performed")
  else if module = "temporal tradecraft correlator".toList then
    isText schema "angerona.temporal-tradecraft.v1" &&
      ["missing", "overflow"].any (fun state => isText (details.item "temporal_state") state &&
        isText (details.item "finding_code") ("temporal.coverage." ++ state)) &&
      isText (details.item "persistence_status") "authenticated" &&
      isStr (details.item "continuity_reason") &&
      !(["signal_kinds", "evidence_digests"].any details.has)
  else if module = "audit log integrity guard".toList then
    isText (details.item "sensor_state") "blind" && isStr (details.item "source_channel") &&
      (isOneOf (details.item "error_class")
          ["FileNotFoundError", "PermissionError", "ModuleNotFoundError", "ImportError"] ||
        (isText (details.item "error_class") "error" &&
          (sameAs (details.item "reader_error_code") (.number 5) ||
            sameAs (details.item "reader_error_code") (.number 15007)))) &&
      !(["event_id", "record_id", "provider", "classification", "telemetry_quality"].any details.has)
  else if module = "aegispath exposure graph guard".toList then
    isText schema "angerona.aegis-path.graph-health.v1" && isTrue (details.item "observation_only") &&
      isFalse (details.item "enforcement_performed") &&
      ((isFalse (details.item "snapshot_available") && isFalse (details.item "snapshot_valid") &&
          isText (details.item "coverage_reason") "no-snapshot") ||
        (isTrue (details.item "snapshot_valid") && isTrue (details.item "semantic_coverage_verified")))
  else if module = "driver provenance guard".toList then
    isText schema "angerona.driver-provenance-coverage.v1" && isStr (details.item "reason_code") &&
      isFalse (details.item "driver_control_performed")
  else false

/-! ### Inventory and posture -/

/-- `_legacy_persistence_baseline`. -/
def legacyPersistenceBaseline (severity : Severity) (details : Details) (module : Str) : Bool :=
  module = "persistence sweep".toList && (severity = .high || severity = .critical) &&
    details.hasExactly
      ["change", "surface", "entry", "value", "mitre", "baseline_trust", "response_authorized"] &&
    ["change", "surface", "entry", "value", "mitre", "baseline_trust"].all
      (fun key => isStr (details.item key)) &&
    isText (details.item "change") "baseline_enrollment" &&
    isText (details.item "baseline_trust") "unreviewed" && isFalse (details.item "response_authorized")

/-- `_PLATFORM_POSTURE_RISKS`. -/
def platformPostureRisks : List String :=
  ["secure-boot-disabled", "vbs-not-running", "hvci-not-running", "code-integrity-disabled",
    "test-signing-enabled", "boot-debug-enabled", "kernel-dma-protection-unavailable",
    "external-dma-policy-permissive"]

/-- `_PLATFORM_UNKNOWN_FIELDS`. -/
def platformUnknownFields : List String :=
  ["secure_boot", "vbs_running", "hvci_running", "code_integrity_enabled", "test_signing", "boot_debug",
    "dma_protection_available", "external_dma_policy_restrictive", "tpm.present", "tpm.quote.verifier"]

/-- A sorted list of known texts without repetition. -/
def isSortedSubset (known : List String) (value : Value) : Bool :=
  (textsOf value).any fun texts =>
    texts.length ≤ known.length && texts.all (fun text => known.any fun name => name.toList = text) &&
      texts = texts.dedup.insertionSort (· ≤ ·)

/-- The fields that `_platform_posture_only` fixes. -/
def platformPostureFixed : List (String × Scalar) :=
  [("schema", .text "angerona.measured-boot-assessment.v1"), ("state", .text "insecure-posture"),
    ("posture_consistent", .flag false), ("raw_quote_omitted", .flag true),
    ("response_authorized", .flag false), ("response_authority", .text "observe-only"),
    ("user_mode_observation", .flag true), ("attribution", .text "not-assessed")]

/-- `_platform_posture_only`. -/
def platformPostureOnly (severity : Severity) (details : Details) (module : Str) : Bool :=
  let quote := details.item "quote_state"
  module = "platform attestation guard".toList && severity = .high &&
    details.hasExactly (platformPostureFixed.map Prod.fst ++
      ["hardware_attested", "quote_state", "evidence_sha256", "risk_codes", "unknown_fields",
        "mitre_tags"]) &&
    platformPostureFixed.all (fun field => sameAs (details.item field.1) field.2) &&
    isSortedSubset platformPostureRisks (details.item "risk_codes") &&
    (textsOf (details.item "risk_codes")).any (· ≠ []) &&
    isSortedSubset platformUnknownFields (details.item "unknown_fields") &&
    isDigest (details.item "evidence_sha256") && isOneOf quote ["absent", "unverified", "verified"] &&
    sameAs (details.item "hardware_attested") (.flag (isText quote "verified")) &&
    textsOf (details.item "mitre_tags") = some ["T1547".toList, "T1562.001".toList]

/-- The fields that `_release_source_posture_only` expects. -/
def releaseSourceExpected : List (String × Scalar) :=
  [("schema", .text "angerona.release-transparency-status.v1"),
    ("finding_code", .text "release-transparency.source-bundle-unprovisioned"),
    ("state", .text "unavailable"), ("runtime", .text "source"), ("observation_only", .flag true),
    ("response_authority", .text "observe-only"), ("response_authorized", .flag false),
    ("automatic_install_authorized", .flag false)]

def releaseSourceMessage : String := "Installed release evidence is unprovisioned in this source run."

/-- `_release_source_posture_only`. -/
def releaseSourcePostureOnly (severity : Severity) (message : Str) (details : Details) (module : Str) :
    Bool :=
  module = "release transparency / anti-rollback guard".toList && severity = .high &&
    message = releaseSourceMessage.toList &&
    details.hasExactly (releaseSourceExpected.map Prod.fst) &&
    releaseSourceExpected.all fun field => sameAs (details.item field.1) field.2

/-! ### Older indicator records -/

/-- A finite number above zero: `math.isfinite` of an integer beyond the floats raises, and that is
    caught. -/
def isBirth : Value → Bool
  | .int n => (Double.ofInt n).isSome && 0 < n
  | .float (.finite d) => 0 < d.val
  | _ => false

def isPid : Value → Bool
  | .int n => 0 < n && n ≤ 0xFFFFFFFF
  | _ => false

/-- `_legacy_indicator_only`. -/
def legacyIndicatorOnly (severity : Severity) (details : Details) (module : Str) : Bool :=
  let policy := details.item "detector_policy"
  if isTrue (details.item "active_exploitation") || isTrue (details.item "threat_intel_corroborated") ||
      isTrue (details.item "entropy_corroborated") then false
  else if (module = "lsass credential-access guard".toList ||
      module = "shadow-copy / recovery tamper guard".toList) &&
        isText policy "semantic-indicator-alert-only" then
    isPid (details.item "pid") && isBirth (details.item "process_create_time") &&
      !isTrue (details.item "response_authorized") && !details.has "response_contract"
  else if Severity.high.rank < severity.rank then false
  else if module = "memory injection scanner".toList then isText policy "rwx-memory-indicator-alert-only"
  else if module = "c2 beacon detector".toList then
    isText policy "cadence-indicator-alert-only" && isFalse (details.item "threat_intel_corroborated")
  else if module = "ransomware heuristics".toList then
    if isText policy "authenticated-content-transition" then
      isOneOf (details.item "transition") ["changed", "missing"]
    else
      isText policy "reviewed-semantic-indicator" && isStr (details.item "path") &&
        isNumber (details.item "entropy") && isNumber (details.item "threshold")
  else false

end Angerona.Threat
