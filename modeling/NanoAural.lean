import NanoAural.Base.Table
import NanoAural.Base.Order
import NanoAural.Base.Transaction
import NanoAural.Base.System
import NanoAural.Base.IntText
import NanoAural.Durable.Domain
import NanoAural.Durable.Schema
import NanoAural.Durable.Statements
import NanoAural.Durable.Queue
import NanoAural.Durable.Publication
import NanoAural.Durable.Calls
import NanoAural.Proof.Fences
import NanoAural.Proof.LedgerTriggers
import NanoAural.Proof.Effects
import NanoAural.Proof.CallEffects
import NanoAural.Proof.Linkage
import NanoAural.Proof.Fencing
import NanoAural.Proof.Ledger
import NanoAural.Proof.Winner
import NanoAural.Durable.Repository
import NanoAural.Durable.PostgresRepository
import NanoAural.Proof.Idempotency
import NanoAural.Durable.RowLocks
import NanoAural.Proof.Closing
import NanoAural.Proof.SpuriousLoss
import NanoAural.Proof.AllOrNothing
import NanoAural.Durable.Migrations
import NanoAural.Proof.MigrationLedger
import NanoAural.Runtime.Session
import NanoAural.Proof.SingleFlight
import NanoAural.Durable.Uploads
import NanoAural.Durable.UploadWorkflow
import NanoAural.Proof.UploadSafety
import NanoAural.Proof.StagingLeak
import NanoAural.Proof.FailClosed
import NanoAural.Proof.RestoreConverges
import NanoAural.Proof.ReferenceRepository
import NanoAural.Proof.Cancellation
import NanoAural.Durable.AttemptStorage
import NanoAural.Proof.AttemptStores
import NanoAural.Base.Timeline
import NanoAural.Durable.BlobStorage
import NanoAural.Proof.BlobBackup
import NanoAural.Base.JsonText
import NanoAural.Base.JsonRoundTrip
import NanoAural.Durable.RecoveryManifests
import NanoAural.Proof.ManifestRoundTrip
import NanoAural.Proof.BackupRuns
import NanoAural.Proof.BackupConverges
import NanoAural.Base.JsonIdentity
import NanoAural.Durable.CanonicalRequests
import NanoAural.Proof.RequestIdentity
import NanoAural.Base.Paging
import NanoAural.Durable.EventPages
import NanoAural.Proof.EventPaging
import NanoAural.Durable.Digests
import NanoAural.Proof.DigestSpellings
import NanoAural.Proof.CancelPaths
import NanoAural.Proof.CancelOnce
import NanoAural.Proof.CacheSwitches
import NanoAural.Proof.CacheIsolation
import NanoAural.Base.Doubles
import NanoAural.Base.OrderedMap
import NanoAural.ControlFoley.MemoryStore
import NanoAural.Proof.MemoryCache
import NanoAural.Base.CyclicScan
import NanoAural.Proof.InventoryPaging
import NanoAural.Proof.JournalIndex
import NanoAural.Base.UuidText
import NanoAural.Durable.AttemptKeys
import NanoAural.Proof.AttemptKeysExact
import NanoAural.Base.JsonLoads
import NanoAural.ControlFoley.SafeTensor
import NanoAural.Proof.SafeTensors
import NanoAural.Proof.SafeTensorRoundTrip
import NanoAural.Durable.ChunkStreams
import NanoAural.Proof.BoundedStreams
import NanoAural.Woosh.FeatureCache
import NanoAural.Proof.FeatureCacheKeys
import NanoAural.Runtime.EmbeddedOwner
import NanoAural.Proof.OwnerLifecycle
import NanoAural.Base.StreamCopy
import NanoAural.Remote.Download
import NanoAural.Proof.Downloads
import NanoAural.Durable.Materialization
import NanoAural.Proof.Materialized
import NanoAural.ControlFoley.L0L1Cache
import NanoAural.Proof.GenerationFence
import NanoAural.Durable.PublicationService
import NanoAural.Proof.PublicationStores
import NanoAural.Proof.PublicationSafety
import NanoAural.Proof.SweepErrors
import NanoAural.Base.Replay
import NanoAural.Proof.JobHistory
import NanoAural.Base.Exceptions
import NanoAural.ControlFoley.StagedPath
import NanoAural.Proof.StagedRuns
import NanoAural.ControlFoley.StagedAdapter
import NanoAural.Proof.PayloadIntegrity
import NanoAural.Proof.CachedRuns
import NanoAural.Base.Dialogues
import NanoAural.Durable.Application
import NanoAural.Proof.NamespaceSafety
