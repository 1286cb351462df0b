import Kaos.Server.ChunkedDocStoreRefinement
import Kaos.Server.AuditLog
import Kaos.Server.CredentialStores
import Kaos.Server.PairingAuthority
import Kaos.Server.RecoveryRoute
import Kaos.Server.SessionCache
import Kaos.Server.SnapshotRetentionRuns
import Kaos.Server.FileRepairSafety
import Kaos.Server.RecoveryRetentionSafety
import Kaos.Server.RoomLoad
import Kaos.Sync.CandidatePersistence
import Kaos.Sync.ServerReceipt
import Kaos.Runtime.RemoteProjectionPolicyGate
import Kaos.Sync.PathLocking
import Kaos.Sync.BlobIntentNetEffect
import Kaos.Sync.PendingBlobIntentCommit
import Kaos.Sync.MetaObserver
import Kaos.Sync.MetaSnapshotDrift
import Kaos.Sync.CreationAdmission
import Kaos.Sync.LocalOperations
import Kaos.Sync.SchemaMigrationSafety
import Kaos.Sync.ActivePathResolvers
import Kaos.Sync.IntegrityChecks
import Kaos.Sync.ActivePathCollision
import Kaos.Headless.VaultAdapterRuns
import Kaos.Runtime.ReconcilePlannerSafety
import Kaos.Runtime.NoEventStructuralSafety
import Kaos.Sync.TransferFence
import Kaos.Sync.BlobDownloadDelivery
import Kaos.Utils.SharedRemovals
import Kaos.Utils.Concurrency
import Kaos.Server.RecoveryReplay
import Kaos.Runtime.ReconcileScheduling
import Kaos.Runtime.ClosedDirtyIngestSafety
import Kaos.Runtime.DirtyQueueRuns
import Kaos.Runtime.ReadSkipRuns
import Kaos.Runtime.AttentionResolutionRuns
import Kaos.Sync.FlushWriteRuns
import Kaos.Sync.MarkdownRemoteDeleteRuns
import Kaos.Sync.MarkdownRemoteRenameRuns
import Kaos.Server.FileHistoryIndexRuns
import Kaos.Server.Base64Url
import Kaos.Server.TraceRateLimiter
import Kaos.Runtime.ProviderPolicySettlement
import Kaos.Sync.PendingWrite
import Kaos.Sync.SelfWriteSuppression
import Kaos.Sync.WriteQueueDrain
import Kaos.Sync.BlobLineage
import Kaos.Server.RecoveryManifestPages
import Kaos.Server.TraceEntries
import Kaos.Runtime.DiskIndex
import Kaos.Sync.SocketTicket
import Kaos.Paths.PathCollision
import Kaos.Sync.TransferSettling
import Kaos.Sync.SessionExchange
import Kaos.Sync.DeviceIdentity
