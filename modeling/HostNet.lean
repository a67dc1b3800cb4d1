import HostNet.Action
import HostNet.Address.Bare
import HostNet.Address.Basic
import HostNet.Address.Text
import HostNet.Diff
import HostNet.Duration
import HostNet.Error
import HostNet.Filter.Tool
import HostNet.Host.Basic
import HostNet.HostLock
import HostNet.Json.Basic
import HostNet.Json.Text
import HostNet.Json.Token
import HostNet.Kernel.ErrorCode
import HostNet.Kernel.Exchange
import HostNet.Kernel.Host
import HostNet.Kernel.Message
import HostNet.Link.Basic
import HostNet.Link.Codec
import HostNet.Link.View
import HostNet.LinkName
import HostNet.Manager.Basic
import HostNet.Manager.Links
import HostNet.Manager.Rules
import HostNet.Progress.Codec
import HostNet.Progress.Phase
import HostNet.Progress.Tracker
import HostNet.Project.Basic
import HostNet.Project.Manager
import HostNet.Proofs.Accounted
import HostNet.Proofs.Addresses
import HostNet.Proofs.ApplyComplete
import HostNet.Proofs.ApplyFrame
import HostNet.Proofs.ApplyHonest
import HostNet.Proofs.ApplyIdle
import HostNet.Proofs.ApplyPass
import HostNet.Proofs.ApplyRun
import HostNet.Proofs.ApplySteps
import HostNet.Proofs.ArmedFailures
import HostNet.Proofs.Attainable
import HostNet.Proofs.BridgeUpdate
import HostNet.Proofs.Built
import HostNet.Proofs.Calm
import HostNet.Proofs.Canonical
import HostNet.Proofs.Changed
import HostNet.Proofs.Checks
import HostNet.Proofs.Comparison
import HostNet.Proofs.Compensation
import HostNet.Proofs.Differences
import HostNet.Proofs.FailedSteps
import HostNet.Proofs.Folds
import HostNet.Proofs.FreeSubnets
import HostNet.Proofs.Generations
import HostNet.Proofs.Guarded
import HostNet.Proofs.GuardedSite
import HostNet.Proofs.HeldLock
import HostNet.Proofs.HostRuns
import HostNet.Proofs.InjectedFailures
import HostNet.Proofs.Inspection
import HostNet.Proofs.JsonText
import HostNet.Proofs.KernelTransactions
import HostNet.Proofs.LinkListings
import HostNet.Proofs.LinkMessages
import HostNet.Proofs.Listings
import HostNet.Proofs.Maintain
import HostNet.Proofs.ManagedBridges
import HostNet.Proofs.Mirror
import HostNet.Proofs.NetworkText
import HostNet.Proofs.Numerals
import HostNet.Proofs.Operation
import HostNet.Proofs.OperationSteps
import HostNet.Proofs.Primitives
import HostNet.Proofs.ProjectCalls
import HostNet.Proofs.ProjectEffects
import HostNet.Proofs.ProjectHandles
import HostNet.Proofs.ProjectHosts
import HostNet.Proofs.ProjectRuns
import HostNet.Proofs.ProjectSteps
import HostNet.Proofs.ProjectUplink
import HostNet.Proofs.Protection
import HostNet.Proofs.Readings
import HostNet.Proofs.Recorded
import HostNet.Proofs.Recoverable
import HostNet.Proofs.Recovery
import HostNet.Proofs.Replay
import HostNet.Proofs.Report
import HostNet.Proofs.Representation
import HostNet.Proofs.Request
import HostNet.Proofs.Resettable
import HostNet.Proofs.RuleIdentity
import HostNet.Proofs.RuleListings
import HostNet.Proofs.RuleOrder
import HostNet.Proofs.RuleRestored
import HostNet.Proofs.RuleRollback
import HostNet.Proofs.RuleSteps
import HostNet.Proofs.SettingsText
import HostNet.Proofs.SlotGuard
import HostNet.Proofs.SnapshotText
import HostNet.Proofs.StackedVlans
import HostNet.Proofs.StoreSteps
import HostNet.Proofs.SubnetOwners
import HostNet.Proofs.SubnetRuns
import HostNet.Proofs.TomlText
import HostNet.Proofs.Trace
import HostNet.Proofs.Undertaking
import HostNet.Proofs.Underway
import HostNet.Proofs.Unsaved
import HostNet.Proofs.Validation
import HostNet.Proofs.VlanOrigins
import HostNet.Rule.Basic
import HostNet.Rule.Codec
import HostNet.Rule.Table
import HostNet.Settings.Basic
import HostNet.Settings.Codec
import HostNet.Snapshot.Basic
import HostNet.Snapshot.Capture
import HostNet.Snapshot.Codec
import HostNet.StatePaths
import HostNet.Store.Basic
import HostNet.Store.SlotFiles
import HostNet.SubnetPool
import HostNet.Text.Blank
import HostNet.Text.Numeral
import HostNet.Text.Quoted
import HostNet.Text.Utf8
import HostNet.Toml.Document
import HostNet.Toml.Scalar
import HostNet.Toml.Statement
import HostNet.Toml.Strings
import HostNet.Toml.Writer
import HostNet.VlanId
