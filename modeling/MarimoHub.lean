import MarimoHub.Guarantees.CatalogChain
import MarimoHub.Guarantees.DecisionAgreement
import MarimoHub.Guarantees.LabelProjection
import MarimoHub.Guarantees.SingletonClaim
import MarimoHub.Guarantees.DrainWorkers
import MarimoHub.Guarantees.EditorClaims
import MarimoHub.Guarantees.JobIndex
import MarimoHub.Guarantees.JobMarkers
import MarimoHub.Guarantees.JobOccurrences
import MarimoHub.Guarantees.JobRetries
import MarimoHub.Guarantees.RunTransitions
import MarimoHub.Guarantees.VersionPruning
import MarimoHub.Guarantees.MetadataStamps
import MarimoHub.Guarantees.OwnerRow
import MarimoHub.Guarantees.WarmPoolCapacity
import MarimoHub.Guarantees.AppPoolCapacity
import MarimoHub.Guarantees.AppPoolIdle
import MarimoHub.Guarantees.AppPoolTombstone
import MarimoHub.Guarantees.HostRetryContract
import MarimoHub.Guarantees.SessionCaps
import MarimoHub.Guarantees.ProposalConvergence
import MarimoHub.Guarantees.IntegrationVersions
import MarimoHub.Guarantees.MaintenanceLock
import MarimoHub.Guarantees.OAuthRateLimit
import MarimoHub.Guarantees.TokenRevocation
import MarimoHub.Guarantees.Suspension
import MarimoHub.Guarantees.InviteRows
import MarimoHub.Guarantees.SnapshotCandidates
import MarimoHub.Guarantees.JobAdmission
import MarimoHub.Guarantees.KernelCapture
import MarimoHub.Guarantees.EventChunks
import MarimoHub.Guarantees.SlidingWindow
import MarimoHub.Guarantees.LazyLoads
import MarimoHub.Guarantees.IdentityLayers
