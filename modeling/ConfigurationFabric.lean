import ConfigurationFabric.AgentAnswers
import ConfigurationFabric.AgentAuthority
import ConfigurationFabric.AgentDigest
import ConfigurationFabric.AgentPaths
import ConfigurationFabric.AgentReplies
import ConfigurationFabric.Corruption
import ConfigurationFabric.DistributorResponses
import ConfigurationFabric.DistributorRetries
import ConfigurationFabric.FrameStream
import ConfigurationFabric.UnreportedDamage
import ConfigurationFabric.StateCapacity
import ConfigurationFabric.StateOffline
import ConfigurationFabric.StateRecords
import ConfigurationFabric.StateUpserts
import ConfigurationFabric.StoreCommit
import ConfigurationFabric.StoreCrash
import ConfigurationFabric.StoreFallback
import ConfigurationFabric.StoreReplay
import ConfigurationFabric.StoreRestored
import ConfigurationFabric.DistributorAlone
import ConfigurationFabric.DistributorLifecycle
import ConfigurationFabric.PolicySafety
import ConfigurationFabric.JournalTorn
import ConfigurationFabric.DistributorReports
import ConfigurationFabric.AgentFindings
import ConfigurationFabric.ConvergenceClock
import ConfigurationFabric.DistributorScheduling
import ConfigurationFabric.ArtifactBudget
import ConfigurationFabric.ArtifactMirror
import ConfigurationFabric.ArtifactReader
import ConfigurationFabric.ArtifactVerification
import ConfigurationFabric.ArtifactIngest
import ConfigurationFabric.ActivationContract
import ConfigurationFabric.DistributorPlans
import ConfigurationFabric.DistributorAdmission
import ConfigurationFabric.DistributorHistory
import ConfigurationFabric.DistributorSubmission
import ConfigurationFabric.PayloadCeiling
import ConfigurationFabric.AgentCounting
import ConfigurationFabric.AgentRetention
import ConfigurationFabric.ConvergenceCounts
import ConfigurationFabric.PolicyBackoff
import ConfigurationFabric.ConvergenceFingerprint
import ConfigurationFabric.AtomicWrite
import ConfigurationFabric.FramedConnection
import ConfigurationFabric.ArtifactIndex
import ConfigurationFabric.Library.Trimmed
import ConfigurationFabric.PlanHeader
import ConfigurationFabric.Library.PartialFold
import ConfigurationFabric.PlanLines
import ConfigurationFabric.PlanFields
import ConfigurationFabric.PlanBlocks
import ConfigurationFabric.PlanValues
import ConfigurationFabric.PlanRender
import ConfigurationFabric.PlanRoundTrip
import ConfigurationFabric.DistributorTargets
import ConfigurationFabric.DistributorLedger
import ConfigurationFabric.Checksums
import ConfigurationFabric.StreamedHash
import ConfigurationFabric.Library.Fips180
import ConfigurationFabric.Transcripts
import ConfigurationFabric.LivePointer
import ConfigurationFabric.JournalHandle
import ConfigurationFabric.DistributorDeeds
import ConfigurationFabric.DistributorVisits
import ConfigurationFabric.DistributorErrands
import ConfigurationFabric.DistributorTruth
import ConfigurationFabric.ConvergenceBlockers
import ConfigurationFabric.AgentHonesty
import ConfigurationFabric.AgentStanding
import ConfigurationFabric.Library.Images
import ConfigurationFabric.Installation
import ConfigurationFabric.FrameChannel
import ConfigurationFabric.SessionChannel
import ConfigurationFabric.Library.Draws
