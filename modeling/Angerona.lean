import Angerona.Lib.Text
import Angerona.Lib.Binary64
import Angerona.Lib.Transition
import Angerona.Lib.Table
import Angerona.Lib.Raising
import Angerona.Lib.History
import Angerona.Lib.Bytes
import Angerona.Lib.PyJson
import Angerona.Lib.PyNumber
import Angerona.Lib.Dict
import Angerona.Lib.StrictJson
import Angerona.Lib.Matching
import Angerona.Lib.DropQueue
import Angerona.Lib.Subsequence
import Angerona.Lib.Effect
import Angerona.Lib.Wal
import Angerona.Sigma.Rule
import Angerona.Sigma.Match
import Angerona.Sigma.Agreement
import Angerona.Sigma.Reference
import Angerona.Outbox.Model
import Angerona.Outbox.Invariant
import Angerona.Outbox.Runs
import Angerona.Outbox.Lease
import Angerona.Outbox.Batch
import Angerona.Bus.Model
import Angerona.Bus.Records
import Angerona.Bus.Poll
import Angerona.Ring.Model
import Angerona.Ring.Frame
import Angerona.Ring.Conservation
import Angerona.Ring.Interleaving
import Angerona.Shutdown.Command
import Angerona.Shutdown.Separation
import Angerona.Shutdown.Replay
import Angerona.Supervisor.Recovery
import Angerona.Supervisor.Budget
import Angerona.Supervisor.Durable
import Angerona.Supervisor.SpawnLock
import Angerona.Breach.Controller
import Angerona.Breach.Cases
import Angerona.Breach.Lockdown
import Angerona.Fleet.Job
import Angerona.Fleet.Store
import Angerona.Response.Identity
import Angerona.Response.Broker
import Angerona.Response.Storage
import Angerona.Response.Calls
import Angerona.Response.Dispatch
import Angerona.Response.Restart
import Angerona.Remediation.Receipts
import Angerona.Remediation.Database
import Angerona.Remediation.Model
import Angerona.Remediation.Custody
import Angerona.Remediation.Runs
import Angerona.Remediation.Chain
import Angerona.Temporal.Model
import Angerona.Temporal.Engine
import Angerona.Temporal.Calls
import Angerona.Temporal.Restart
import Angerona.Temporal.Detection
import Angerona.Temporal.Severity
import Angerona.Mesh.Endpoint
import Angerona.Mesh.Packets
import Angerona.Mesh.Authority
import Angerona.Mesh.Authenticity
import Angerona.Mesh.Channel
import Angerona.Mesh.Pairing
import Angerona.Mesh.Handshake
import Angerona.Mesh.Agreement
import Angerona.Fleet.Runs
import Angerona.Registry.Reopen
import Angerona.Registry.Lifecycle
import Angerona.Registry.Succession
import Angerona.CaseStore.Model
import Angerona.CaseStore.Custody
import Angerona.CaseStore.Purge
import Angerona.CaseStore.Runs
import Angerona.EventLog.Checkpoint
import Angerona.EventLog.Freshness
import Angerona.Lib.JsonText
import Angerona.Lib.LoadedJson
import Angerona.Ring.Sensor
import Angerona.Packages.Detection
import Angerona.Beacon.Watch
import Angerona.Beacon.Emergency
import Angerona.Ransomware.Runs
import Angerona.Fleet.RateLimit
import Angerona.Fleet.Devices
import Angerona.Secrets.LegacyEnv
import Angerona.Heartbeat.Replay
import Angerona.Recovery.Updates
import Angerona.Telemetry.Interleaving
import Angerona.Authorization.Decisions
import Angerona.Policies.DryRun
import Angerona.Lib.BucketReplay
import Angerona.Lib.QueueDrain
import Angerona.Fabric.Restart
import Angerona.Fabric.Gate
import Angerona.Lib.Selection
import Angerona.Exposure.Snapshots
import Angerona.Lib.LazyBuckets
import Angerona.Ransomware.Renames
import Angerona.Threat.Disposition
import Angerona.Cadence.Findings
import Angerona.Identity.Windows
import Angerona.Lib.BoundedHeap
import Angerona.Retention.Honesty
import Angerona.Assurance.Receipts
import Angerona.Soar.Delivery
import Angerona.Lib.Reach
import Angerona.Lib.SetDict
import Angerona.Policies.Layers
import Angerona.Provenance.Queries
