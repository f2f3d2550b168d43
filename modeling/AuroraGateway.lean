import AuroraGateway.BlueGreen.Preview
import AuroraGateway.BlueGreen.SlotWords
import AuroraGateway.CanaryRelease.Patterns
import AuroraGateway.CanaryRelease.Rollout
import AuroraGateway.ConnectionLimit.Failover
import AuroraGateway.ConnectionLimit.Isolation
import AuroraGateway.ControlPlane.AuthProviders
import AuroraGateway.ControlPlane.BackupCron
import AuroraGateway.ControlPlane.ExtensionStatus
import AuroraGateway.ControlPlane.LoginLimiter
import AuroraGateway.ControlPlane.QueryGuard
import AuroraGateway.ControlPlane.S3Retention
import AuroraGateway.ControlPlane.SchedulerSnapshots
import AuroraGateway.ControlPlane.SecondFactor
import AuroraGateway.ControlPlane.ServiceToggle
import AuroraGateway.ControlPlane.UpstreamPreview
import AuroraGateway.ControlWorker.CertificateSelection
import AuroraGateway.ControlWorker.ClientCertificates
import AuroraGateway.ControlWorker.CorsOrigins
import AuroraGateway.ControlWorker.InternalOnly
import AuroraGateway.ControlWorker.Winners
import AuroraGateway.Engine.HostPatterns
import AuroraGateway.Ffi.Reload
import AuroraGateway.Ffi.ResolvedMasks
import AuroraGateway.IpRestriction.FastPath
import AuroraGateway.IpRestriction.LongestPrefix
import AuroraGateway.Jwt.CachedVerdicts
import AuroraGateway.Jwt.ClaimChecks
import AuroraGateway.Jwt.RevocationItems
import AuroraGateway.Jwt.TokenForms
import AuroraGateway.Nginx.ContentCoding
import AuroraGateway.Nginx.HeaderInjection
import AuroraGateway.Nginx.InFlight
import AuroraGateway.Nginx.RoutedPath
import AuroraGateway.Nginx.SizeLimits
import AuroraGateway.Nginx.WholeBodies
import AuroraGateway.RateLimit.Audit
import AuroraGateway.RateLimit.FixedWindowQuota
import AuroraGateway.RateLimit.MemoryBudget
import AuroraGateway.RateLimit.RetryAfter
import AuroraGateway.Redis.SharedCounters
import AuroraGateway.RequestTermination.Bypass
import AuroraGateway.ResourceLimit.Comparators
import AuroraGateway.ResponseCache.Agreement
import AuroraGateway.ResponseCache.CanonicalQuery
import AuroraGateway.ResponseCache.EvictionOrder
import AuroraGateway.ResponseCache.Served
import AuroraGateway.ResponseCompression.AcceptEncoding
import AuroraGateway.Shm.Publication
import AuroraGateway.TrafficSplit.Engine
