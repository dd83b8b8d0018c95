import Hegira.Library.KeyedFold
import Hegira.Library.Program
import Hegira.Mutator.ChangePath
import Hegira.Mutator.ChangePlan
import Hegira.Mutator.PlanSemantics
import Hegira.Mutator.Composition
import Hegira.Mutator.FileSystem
import Hegira.Mutator.Publisher
import Hegira.Mutator.Footprint
import Hegira.Mutator.Contracts
import Hegira.Mutator.Transaction
import Hegira.Mutator.Phases
import Hegira.Mutator.Machine
import Hegira.Mutator.Atomicity
import Hegira.Mutator.CrashSafety
import Hegira.Mutator.Interference
import Hegira.Identity.RedisRotation
import Hegira.Jobs.Attempts
import Hegira.Search.Handlers
import Hegira.Search.LatestRevision
import Hegira.Identity.LastConnection
import Hegira.Identity.ManagedAtomicity
import Hegira.Generator.Migration
import Hegira.Generator.MigrationHistory
import Hegira.Identity.AdminServices
import Hegira.Identity.OAuthService
import Hegira.Identity.Site
import Hegira.Jobs.Leases
import Hegira.Library.DepthFirst
import Hegira.Mutator.CargoDependency
import Hegira.Mutator.Contributions
import Hegira.Mutator.DependencyMatching
import Hegira.Mutator.EffectiveEdits
import Hegira.Template.ApplicationManifest
import Hegira.Template.Composition
import Hegira.Template.Resolution
import Hegira.HttpSupport.ClientIp
import Hegira.HttpSupport.MemoryLimiter
import Hegira.HttpSupport.QuotaKeys
import Hegira.HttpSupport.RedisLimiter
import Hegira.HttpSupport.RetryAfter
import Hegira.Identity.Effects
import Hegira.Identity.Keys
import Hegira.Identity.MailedTokens
import Hegira.Identity.RoleRename
import Hegira.Identity.TokenExpiry
import Hegira.Library.Arrangement
import Hegira.Library.LossyText
import Hegira.Template.Ownership
import Hegira.Template.UpgradeGraph
import Hegira.Template.UpgradeResolution
import Hegira.Destination.FileSystem
import Hegira.Destination.Publish
import Hegira.Identity.RepositoryAgreement
import Hegira.Library.FirstMatch
import Hegira.Library.UniqueKeys
import Hegira.Persistence.MigrationStatus
import Hegira.Template.Substitution
import Hegira.Destination.AllOrNothing
import Hegira.Identity.EmailChange
import Hegira.Template.FrameworkRelease
import Hegira.Template.ManagedPaths
import Hegira.Cache.Reclaim
import Hegira.Generator.Localization
import Hegira.Generator.Pagination
import Hegira.Template.MutationCompatibility
import Hegira.Generator.Persistence
import Hegira.Generator.Repository
import Hegira.Generator.ResourceRuns
import Hegira.Generator.ResourceLayers
import Hegira.Identity.SessionLifetime
