import NetBerth.Interleaving
import NetBerth.SqlTable
import NetBerth.Accounts
import NetBerth.LastAdmin
import NetBerth.RefreshRotation
import NetBerth.SessionInvalidation
import NetBerth.BackupCrypto
import NetBerth.BackupRoundTrip
import NetBerth.BackupIntegrity
import NetBerth.ResourcePool
import NetBerth.ConnectionPool
import NetBerth.RuleLoading
import NetBerth.IPAddress
import NetBerth.IPNetwork
import NetBerth.ForwardEngine
import NetBerth.ForwardConvergence
import NetBerth.Watchdog
import NetBerth.ForwardListeners
import NetBerth.ACLMatcher
import NetBerth.ProxyRoutes
import NetBerth.ProxyHandler
import NetBerth.TokenKinds
import NetBerth.ClientIP
import NetBerth.TaggedRecords
import NetBerth.UDPAddress
import NetBerth.StunMessage
import NetBerth.StunBind
import NetBerth.StunFingerprint
import NetBerth.StunStrays
import NetBerth.StunCodec
import NetBerth.RateLimit
import NetBerth.Rebind
import NetBerth.BackupCanonical
import NetBerth.Restore
import NetBerth.Transitions
import NetBerth.WriteAheadLog
import NetBerth.RestoreRestart
import NetBerth.SchemaUpgrade
import NetBerth.BackupDownload
import NetBerth.RateLimitCleanup
import NetBerth.LoginLimiter
import NetBerth.LimiterIsolation
import NetBerth.CertificateFiles
import NetBerth.CertificateRenewal
import NetBerth.AccountKey
import NetBerth.StoredRules
import NetBerth.RuleSnapshots
import NetBerth.ModuleEvents
import NetBerth.ModuleLoading
import NetBerth.Goroutines
import NetBerth.ConnectionLimit
import NetBerth.UDPSessions
import NetBerth.UDPSessionClose
import NetBerth.EngineInstances
import NetBerth.TwoFactor
import NetBerth.UserUpdates
import NetBerth.JSONDecode
import NetBerth.Models
import NetBerth.RowUpdates
import NetBerth.Router
import NetBerth.AuditTrail
import NetBerth.AdminOnly
import NetBerth.WebClient
import NetBerth.ForwardAddress
import NetBerth.ProxyRouting
import NetBerth.Base64
import NetBerth.PasswordHash
import NetBerth.ProxyBasicAuth
import NetBerth.SubmittedLists
import NetBerth.LockoutWindow
import NetBerth.LockoutCleanup
import NetBerth.WebhookDelivery
import NetBerth.WebhookDispatch
import NetBerth.UDPSessionAging
import NetBerth.Majority
import NetBerth.StunConsensus
import NetBerth.PortPrediction
import NetBerth.RenewalSelection
import NetBerth.CertificateIssuance
import NetBerth.URLQuery
import NetBerth.AliyunQuery
import NetBerth.ClientCalls
import NetBerth.DDNSProviders
import NetBerth.ProviderAnswers
import NetBerth.DDNSZones
import NetBerth.ConfiguredRecords
import NetBerth.PublishedAddress
import NetBerth.DDNSJobs
import NetBerth.TextFields
import NetBerth.CronParser
import NetBerth.CronSchedules
import NetBerth.LexicalPath
import NetBerth.SafePath
import NetBerth.WebdavGuard
import NetBerth.StunWalks
import NetBerth.PasswordCodec
import NetBerth.EnvSettings
import NetBerth.ListPages
import NetBerth.Pagination
import NetBerth.CircuitBreaker
import NetBerth.Calendar
import NetBerth.FieldSearch
import NetBerth.CronActivation
import NetBerth.ScheduleMeaning
import NetBerth.CronScheduler
import NetBerth.BackupRestore
import NetBerth.EnginesFollow
import NetBerth.InitialPasswords
import NetBerth.TCPRelay
import NetBerth.StatusHub
import NetBerth.NATDetection
import NetBerth.StorageMounts
import NetBerth.OneTimePasswords
import NetBerth.SelfSignedPair
import NetBerth.WebhookEndpoints
import NetBerth.Migrations
