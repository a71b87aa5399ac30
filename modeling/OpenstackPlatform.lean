import OpenstackPlatform.Library.Table
import OpenstackPlatform.Library.Run
import OpenstackPlatform.Library.Program
import OpenstackPlatform.Library.Process
import OpenstackPlatform.Library.Threads
import OpenstackPlatform.Library.Nftables
import OpenstackPlatform.Json
import OpenstackPlatform.Validation
import OpenstackPlatform.Controller.Rows
import OpenstackPlatform.Controller.Database
import OpenstackPlatform.Controller.Journal
import OpenstackPlatform.Controller.JournalSpec
import OpenstackPlatform.Controller.JournalRun
import OpenstackPlatform.Controller.ScopeExclusivity
import OpenstackPlatform.Controller.AsyncOperations
import OpenstackPlatform.Controller.CallEffects
import OpenstackPlatform.Controller.ExecutorInvariant
import OpenstackPlatform.Controller.Startup
import OpenstackPlatform.Controller.SystemInvariant
import OpenstackPlatform.Controller.SlotAccounting
import OpenstackPlatform.Controller.RestartRecovery
import OpenstackPlatform.Controller.FinishingRetries
import OpenstackPlatform.StorageInstances.Contract
import OpenstackPlatform.StorageInstances.IpAddress
import OpenstackPlatform.StorageInstances.IpAddressText
import OpenstackPlatform.StorageInstances.Config
import OpenstackPlatform.StorageInstances.Firewall
import OpenstackPlatform.StorageInstances.FirewallScript
import OpenstackPlatform.StorageInstances.FirewallExact
import OpenstackPlatform.StorageInstances.Host
import OpenstackPlatform.StorageInstances.Manager
import OpenstackPlatform.StorageInstances.Agreement
import OpenstackPlatform.StorageInstances.Steps
import OpenstackPlatform.StorageInstances.Requests
import OpenstackPlatform.StorageInstances.Ports
import OpenstackPlatform.StorageInstances.Limits
import OpenstackPlatform.StorageInstances.RestoreWindow
import OpenstackPlatform.Library.Trace
import OpenstackPlatform.Broker.Database
import OpenstackPlatform.Broker.Accounts
import OpenstackPlatform.Broker.Portal
import OpenstackPlatform.Broker.Outcomes
import OpenstackPlatform.Broker.Revocation
import OpenstackPlatform.Broker.Commits
import OpenstackPlatform.Broker.SingleUse
import OpenstackPlatform.Broker.Factors
import OpenstackPlatform.Broker.FactorRuns
import OpenstackPlatform.Broker.Board
import OpenstackPlatform.Broker.Journal
import OpenstackPlatform.Broker.Absorption
import OpenstackPlatform.Broker.Bindings
import OpenstackPlatform.Broker.Compatible
import OpenstackPlatform.Broker.CompatibleRuns
import OpenstackPlatform.Broker.Team
import OpenstackPlatform.Broker.TeamRuns
import OpenstackPlatform.Controller.Storage
import OpenstackPlatform.Controller.StorageReplays
import OpenstackPlatform.Controller.StorageStops
import OpenstackPlatform.Helper.NomadJobs
import OpenstackPlatform.Paths
import OpenstackPlatform.Library.Text
import OpenstackPlatform.Library.JsonText
import OpenstackPlatform.Controller.Applications
import OpenstackPlatform.Controller.StorageContract
import OpenstackPlatform.Controller.DeploymentConfig
import OpenstackPlatform.Controller.ConfigurationSpec
import OpenstackPlatform.Controller.DeploymentAttempts
import OpenstackPlatform.Controller.ConfigurationRoundTrip
import OpenstackPlatform.Controller.IdempotencyKeys
import OpenstackPlatform.Controller.IdempotencyRuns
import OpenstackPlatform.Library.Dockerfile
import OpenstackPlatform.Controller.ApplicationModels
import OpenstackPlatform.Controller.Recipe
import OpenstackPlatform.Library.Lines
import OpenstackPlatform.Library.Hcl
import OpenstackPlatform.Controller.NomadJobs
import OpenstackPlatform.Controller.InertJobs
import OpenstackPlatform.Controller.JobReaders
import OpenstackPlatform.Controller.JobIdentity
import OpenstackPlatform.Controller.SlugRetirement
import OpenstackPlatform.Infra.HealthAlerts
import OpenstackPlatform.Library.SlidingWindow
import OpenstackPlatform.Library.Registry
import OpenstackPlatform.Broker.LoginLimits
import OpenstackPlatform.Library.Calendar
import OpenstackPlatform.BackupRetention
import OpenstackPlatform.Library.Bounds
import OpenstackPlatform.Library.Ranking
import OpenstackPlatform.RuntimeVersions.Intervals
import OpenstackPlatform.Library.Words
import OpenstackPlatform.RuntimeVersions.Ranges
import OpenstackPlatform.RuntimeVersions.RangeTexts
import OpenstackPlatform.Helper.RuntimeImages
import OpenstackPlatform.Library.Keyset
import OpenstackPlatform.Broker.Pages
import OpenstackPlatform.Library.TokenBucket
import OpenstackPlatform.Broker.AddressLimits
import OpenstackPlatform.Broker.ClassReads
import OpenstackPlatform.Library.Checks
import OpenstackPlatform.Library.CompareAndSet
import OpenstackPlatform.Helper.OwnedItems
import OpenstackPlatform.Helper.JobAbsence
import OpenstackPlatform.Library.Versions
import OpenstackPlatform.Broker.Observations
import OpenstackPlatform.Broker.ObservationSteps
import OpenstackPlatform.Broker.ObservationRuns
import OpenstackPlatform.RuntimeVersions.Requests
import OpenstackPlatform.Helper.RuntimeEvidence
import OpenstackPlatform.Library.Substitution
import OpenstackPlatform.Controller.StorageHosts
import OpenstackPlatform.Controller.StorageHostsRewrite
import OpenstackPlatform.Controller.StorageHostsUpgrade
import OpenstackPlatform.Library.Dictionary
import OpenstackPlatform.Controller.SecretKeys
import OpenstackPlatform.Library.TextLines
import OpenstackPlatform.Controller.Dotenv
import OpenstackPlatform.Library.Records
import OpenstackPlatform.LogTimestamps
import OpenstackPlatform.Library.Utf8Bytes
import OpenstackPlatform.Controller.TimestampLines
import OpenstackPlatform.Durable
import OpenstackPlatform.Library.FileTree
import OpenstackPlatform.Releases.WheelInputs
import OpenstackPlatform.Library.Utf8Replace
import OpenstackPlatform.Controller.LogTail
import OpenstackPlatform.Helper.BuildLogs
import OpenstackPlatform.Library.IsoTimes
import OpenstackPlatform.Controller.RetryTimes
import OpenstackPlatform.Helper.RegistryArtifact
import OpenstackPlatform.Helper.SourceKeys
import OpenstackPlatform.Library.Heap
import OpenstackPlatform.Controller.SingleFlight
import OpenstackPlatform.Controller.FlavorCache
import OpenstackPlatform.Controller.FlavorCacheRuns
import OpenstackPlatform.Broker.KnownDevice
import OpenstackPlatform.Library.IntText
import OpenstackPlatform.Controller.SourceKeyBackup
import OpenstackPlatform.Controller.SourceKeyRestore
