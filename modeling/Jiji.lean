import Jiji.Agent.Api
import Jiji.Agent.Catalog
import Jiji.Agent.CatalogConvergence
import Jiji.Agent.CatalogDelivery
import Jiji.Agent.CommitEffect
import Jiji.Agent.Commits
import Jiji.Agent.Compaction
import Jiji.Agent.Connections
import Jiji.Agent.CronOccurrences
import Jiji.Agent.CronOverlap
import Jiji.Agent.CronRecovery
import Jiji.Agent.CronSchedule
import Jiji.Agent.CronStore
import Jiji.Agent.Desired
import Jiji.Agent.DesiredHistory
import Jiji.Agent.DesiredWinners
import Jiji.Agent.Discovery
import Jiji.Agent.Dns
import Jiji.Agent.DnsZone
import Jiji.Agent.Exchange
import Jiji.Agent.ExchangeConvergence
import Jiji.Agent.ExchangeIsolation
import Jiji.Agent.HostLease
import Jiji.Agent.LeaseAllocation
import Jiji.Agent.LeaseExclusion
import Jiji.Agent.Leases
import Jiji.Agent.LocalReconcile
import Jiji.Agent.Membership
import Jiji.Agent.MembershipSafety
import Jiji.Agent.ProxyBringup
import Jiji.Agent.RequestRetry
import Jiji.Agent.Store
import Jiji.Agent.StoreInvariant
import Jiji.Agent.StoreOrder
import Jiji.Agent.WireGuardLeftovers
import Jiji.Agent.WireGuardReconcile
import Jiji.Agent.WireGuardRetry
import Jiji.Cli.BuildContext
import Jiji.Cli.Cascade
import Jiji.Cli.ContextLinks
import Jiji.Cli.DeployAtomicity
import Jiji.Cli.DeployFootprint
import Jiji.Cli.DeployInvariant
import Jiji.Cli.DeployPhases
import Jiji.Cli.DeployRecovery
import Jiji.Cli.DeployStaging
import Jiji.Cli.DeployTransaction
import Jiji.Cli.EnvFile
import Jiji.Cli.FreeLocks
import Jiji.Cli.GenerationContent
import Jiji.Cli.HostCalls
import Jiji.Cli.Import
import Jiji.Cli.LockAcquisition
import Jiji.Cli.LockExclusion
import Jiji.Cli.LockFiles
import Jiji.Cli.LockRequests
import Jiji.Cli.LockRollback
import Jiji.Cli.NetworkActivation
import Jiji.Cli.NetworkRanges
import Jiji.Cli.NetworkRollback
import Jiji.Cli.NetworkSetup
import Jiji.Cli.Placement
import Jiji.Cli.ProxyRoutes
import Jiji.Cli.Redaction
import Jiji.Cli.StopFirst
import Jiji.Cli.Volumes
import Jiji.Cli.WireguardFile
import Jiji.Control.Fallible
import Jiji.Control.Machine
import Jiji.Control.Protocol
import Jiji.Control.Reservation
import Jiji.Control.Retry
import Jiji.Control.Script
import Jiji.Digest.Sha2
import Jiji.Network.Allocation
import Jiji.Network.BridgeScript
import Jiji.Network.Cidr
import Jiji.Network.Interface
import Jiji.Network.MeshEncoding
import Jiji.Network.PlanCompleteness
import Jiji.Network.PlanSoundness
import Jiji.Network.Planner
import Jiji.Proxy.CertificateSources
import Jiji.Proxy.Certificates
import Jiji.Proxy.Challenges
import Jiji.Proxy.RouteLookup
import Jiji.Proxy.RouteOwnership
import Jiji.Proxy.Server
import Jiji.Replication.Batch
import Jiji.Replication.Ledger
import Jiji.Replication.Register
import Jiji.Replication.View
import Jiji.Text.Lines
import Jiji.Text.Replacement
import Jiji.Wire.Dns
