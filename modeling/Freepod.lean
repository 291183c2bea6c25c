import Freepod.Base.Table
import Freepod.Base.Machine
import Freepod.Values.Json
import Freepod.Platform.Rows
import Freepod.Base.Refuse
import Freepod.Platform.State
import Freepod.Base.Dotted
import Freepod.Platform.Hostnames
import Freepod.Platform.Jobs
import Freepod.Base.Assoc
import Freepod.Base.Window
import Freepod.Platform.Retention
import Freepod.Platform.Vars
import Freepod.Platform.Deployments
import Freepod.Platform.Power
import Freepod.Platform.Webhooks
import Freepod.Platform.Builds
import Freepod.Platform.Reconcile
import Freepod.Platform.Step
import Freepod.Runs.Requests
import Freepod.Runs.Workers
import Freepod.Runs.Kept
import Freepod.Runs.Sound
import Freepod.Runs.Frame
import Freepod.Runs.Holding
import Freepod.Runs.Orderly
import Freepod.Runs.Releases
import Freepod.Properties.Lease
import Freepod.Properties.Outcomes
import Freepod.Properties.Deletion
import Freepod.Properties.Cluster
import Freepod.Properties.Stranded
import Freepod.Properties.Payments
import Freepod.Properties.Retention
import Freepod.Properties.Hostnames
import Freepod.Values.Document
import Freepod.Values.Jsonb
import Freepod.Platform.SignIn
import Freepod.Platform.TenantDb
import Freepod.Properties.Teardown
import Freepod.Properties.SignIn
import Freepod.Platform.Pending
import Freepod.Runs.Environments
import Freepod.Properties.Pending
import Freepod.Values.Paths
import Freepod.Platform.HelmValues
import Freepod.Properties.Namespace
import Freepod.Base.Transaction
import Freepod.Platform.Sessions
import Freepod.Runs.Results
import Freepod.Properties.Ledger
import Freepod.Properties.Powers
import Freepod.Base.Program
import Freepod.Base.Pool
import Freepod.Base.Interrupt
import Freepod.Auth.Records
import Freepod.Auth.Request
import Freepod.Auth.Store
import Freepod.Auth.Access
import Freepod.Auth.Broker
import Freepod.Auth.Provider
import Freepod.Auth.Handlers
import Freepod.Auth.Contract
import Freepod.Auth.Deeds
import Freepod.Auth.Effects
import Freepod.Auth.Traces
import Freepod.Properties.Integrity
import Freepod.Properties.Ended
import Freepod.Properties.SignOut
import Freepod.Accounts.Users
import Freepod.Accounts.Requests
import Freepod.Accounts.Contract
import Freepod.Accounts.Runs
import Freepod.Properties.Identity
import Freepod.Properties.Handles
import Freepod.Platform.Updates
import Freepod.Runs.Rollouts
import Freepod.Properties.Templates
import Freepod.Platform.BuildLog
import Freepod.Platform.BuildWorker
import Freepod.Runs.BuildPasses
import Freepod.Runs.BuildJobs
import Freepod.Properties.BuildLogs
import Freepod.Properties.BuildOutcomes
import Freepod.Properties.Statuses
import Freepod.Runs.VarHeads
import Freepod.Properties.VarWrites
import Freepod.Platform.TemplateValues
import Freepod.Properties.Halves
import Freepod.Platform.VarReads
import Freepod.Properties.VarChecks
import Freepod.Properties.ReadBack
import Freepod.Properties.Deliverable
import Freepod.Platform.Rotation
import Freepod.Properties.Rotation
import Freepod.Properties.QuotaNotices
import Freepod.Platform.AccessList
import Freepod.Properties.AccessLimits
import Freepod.Auth.Removal
import Freepod.Properties.Removal
import Freepod.Platform.Provisioning
import Freepod.Properties.Merges
import Freepod.Properties.Previews
import Freepod.Base.GroupBy
import Freepod.Platform.RetentionStream
import Freepod.Properties.RetentionStream
import Freepod.Cli.Archive
import Freepod.Properties.Packing
import Freepod.Base.Xml
import Freepod.Cli.Bucket
import Freepod.Properties.BatchDelete
import Freepod.Platform.HostnameValues
import Freepod.Properties.HostnameValues
import Freepod.Cli.Rollout
import Freepod.Properties.Rollout
import Freepod.Auth.Verifier
import Freepod.Properties.Revocation
import Freepod.Platform.PostRender
import Freepod.Properties.PostRender
import Freepod.Base.Turns
import Freepod.Exporter.State
import Freepod.Properties.Freshness
import Freepod.Base.Tiling
import Freepod.Exporter.Activity
import Freepod.Properties.CrossCheck
import Freepod.Base.Binary64
import Freepod.Platform.BuildUsage
import Freepod.Properties.BuildUsage
import Freepod.Properties.UsagePasses
import Freepod.Base.PercentEncoding
import Freepod.Cli.Signing
import Freepod.Properties.Signing
import Freepod.Base.JsonText
import Freepod.Base.JsonRoundTrip
import Freepod.Base.Lines
import Freepod.Cli.LogEvents
import Freepod.Properties.LogEvents
import Freepod.Base.Lists
import Freepod.Base.Replace
import Freepod.Base.JsonSpelling
import Freepod.Upgrader.Redact
import Freepod.Properties.Redact
import Freepod.Upgrader.Live
import Freepod.Properties.Live
import Freepod.Base.Zone
import Freepod.Upgrader.Schedule
import Freepod.Properties.Schedule
import Freepod.Platform.Naming
import Freepod.Properties.Naming
import Freepod.Ui.ValuesForm
import Freepod.Properties.FormWalks
import Freepod.Properties.ValuesForm
import Freepod.Properties.Provisioning
import Freepod.Properties.Bindings
import Freepod.Platform.LogStream
import Freepod.Cli.LogFollow
import Freepod.Properties.LogFollow
import Freepod.Platform.UsageSources
import Freepod.Platform.UsageSampler
import Freepod.Properties.UsageLedger
import Freepod.Properties.UsageSampler
import Freepod.Properties.UsageWalks
import Freepod.Base.NetworkPolicy
import Freepod.Platform.NetworkPolicy
import Freepod.Properties.NetworkPolicy
import Freepod.Properties.Isolation
import Freepod.Cli.BucketMove
import Freepod.Properties.BucketMove
import Freepod.Properties.MoveSafe
import Freepod.Properties.MoveComplete
