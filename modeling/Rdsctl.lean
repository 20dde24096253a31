import Rdsctl.Agent.Replay
import Rdsctl.Agent.Removal
import Rdsctl.Agent.Render
import Rdsctl.Http.Actor
import Rdsctl.Dag.Takeover
import Rdsctl.Inst.Replicas
import Rdsctl.Inst.Replace
import Rdsctl.Inst.Migrate
import Rdsctl.Inst.Sweep
import Rdsctl.Inst.Failover
import Rdsctl.Inst.Ports
import Rdsctl.Inst.Verdict
import Rdsctl.Sha256
import Rdsctl.Lib.Fips180
import Rdsctl.Sha256.Standard
import Rdsctl.Lib.Run
import Rdsctl.Lib.Fallible
import Rdsctl.Ha.Cluster
import Rdsctl.Ha.Ballot
import Rdsctl.Ha.Election
import Rdsctl.Ha.Leadership
import Rdsctl.Lib.Replication
import Rdsctl.Ha.LogView
import Rdsctl.Ha.Safety
import Rdsctl.Ha.Lease
import Rdsctl.Ha.Fence
import Rdsctl.Ha.Auth
import Rdsctl.Ha.Sessions
import Rdsctl.Lib.Utf8
import Rdsctl.Ha.Lossy
import Rdsctl.Ha.Rpc
import Rdsctl.Ha.Steps
import Rdsctl.Ha.Ledger
import Rdsctl.Ha.Changes
import Rdsctl.Ha.Versions
import Rdsctl.Ha.Provenance
import Rdsctl.Ha.Determinism
import Rdsctl.Ha.Progress
import Rdsctl.Ha.Replica
import Rdsctl.Ha.Commit
import Rdsctl.Ha.LogFile
import Rdsctl.Ha.Reopen
import Rdsctl.Ha.TornTail
import Rdsctl.Ha.Projection
import Rdsctl.Ha.Projected
import Rdsctl.Lib.Waves
import Rdsctl.Dag.Scheduler
import Rdsctl.Dag.Cycle
import Rdsctl.Dag.Wave
import Rdsctl.Dag.Execute
import Rdsctl.Dag.Dependencies
import Rdsctl.Dag.Resume
import Rdsctl.Dag.Definition
import Rdsctl.Dag.Live
import Rdsctl.Dag.Success
import Rdsctl.Dag.Cancel
import Rdsctl.Dag.Drafts
import Rdsctl.Inst.Stale
import Rdsctl.Inst.SwitchLoss
import Rdsctl.Inst.Names
import Rdsctl.Inst.WellFormed
import Rdsctl.Inst.Joining
import Rdsctl.Inst.Registry
import Rdsctl.Inst.Calls
import Rdsctl.Inst.Turns
import Rdsctl.Inst.Starts
import Rdsctl.Inst.Orderly
import Rdsctl.Inst.Topologies
import Rdsctl.Inst.Alive
import Rdsctl.Inst.Containers
import Rdsctl.Inst.ServerIds
import Rdsctl.Inst.Identities
import Rdsctl.Inst.Watch
import Rdsctl.Inst.Loss
import Rdsctl.Inst.Tenure
import Rdsctl.Inst.Lvs
import Rdsctl.Store.Registration
import Rdsctl.Store.Instances
import Rdsctl.Ha.Clock
import Rdsctl.Ha.Skew
import Rdsctl.Ha.Exchange
import Rdsctl.Ha.Handover
import Rdsctl.Ha.Waiting
import Rdsctl.Ha.Batch
import Rdsctl.Ha.FailedAppend
import Rdsctl.Ha.Fallback
import Rdsctl.Ha.Crash
import Rdsctl.Ha.CatchUp
import Rdsctl.Ha.PreVote
import Rdsctl.Inst.Capacity
import Rdsctl.Query.Provision
import Rdsctl.Store.Tasks
import Rdsctl.Store.Agreement
import Rdsctl.Store.TaskIds
import Rdsctl.Store.Alerts
import Rdsctl.Inst.Owners
import Rdsctl.Query.Screen
import Rdsctl.Query.Table
import Rdsctl.Query.RunQuery
import Rdsctl.Query.CommandLine
import Rdsctl.Query.Slow
import Rdsctl.Query.Reports
import Rdsctl.Http.Readers
