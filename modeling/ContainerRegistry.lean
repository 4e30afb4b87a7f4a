import ContainerRegistry.Analysis.ManifestCollection
import ContainerRegistry.Analysis.BlobStorage
import ContainerRegistry.Analysis.ImagePuts
import ContainerRegistry.Analysis.TagCollection
import ContainerRegistry.Analysis.UploadRaces
import ContainerRegistry.Analysis.CacheIsolation
import ContainerRegistry.Analysis.CacheCoherence
import ContainerRegistry.Analysis.S3Stats
import ContainerRegistry.Analysis.CatalogPages
import ContainerRegistry.Analysis.DeleteRetries
import ContainerRegistry.Analysis.LockOrdering
import ContainerRegistry.Analysis.ImportCompleteness
import ContainerRegistry.Analysis.QueueDelivery
import ContainerRegistry.Analysis.BroadcastDelivery
import ContainerRegistry.Analysis.S3Writer
import ContainerRegistry.Analysis.GcsWriter
import ContainerRegistry.Analysis.SwiftWriter
import ContainerRegistry.Analysis.MigrationRouting
import ContainerRegistry.Analysis.TokenAuthorization
import ContainerRegistry.Analysis.ManifestDispatch
import ContainerRegistry.Analysis.ManifestValidation
import ContainerRegistry.Analysis.BlobMounts
import ContainerRegistry.Analysis.ListingPages
import ContainerRegistry.Analysis.ClientWriter
import ContainerRegistry.Analysis.ReviewPostponement
import ContainerRegistry.Analysis.TaggedPuts
import ContainerRegistry.Analysis.RepositoryTree
import ContainerRegistry.Analysis.CreateOrFindRaces
import ContainerRegistry.Analysis.UploadPurging
import ContainerRegistry.Analysis.ManifestRemoval
import ContainerRegistry.Analysis.CachedTags
import ContainerRegistry.Analysis.AzureWriter
import ContainerRegistry.Analysis.OssDeletes
import ContainerRegistry.Analysis.FailedCommits
import ContainerRegistry.Analysis.SegmentLeaks
import ContainerRegistry.Analysis.BlobTransfers
import ContainerRegistry.Analysis.Readers
import ContainerRegistry.Analysis.IgnoredEvents
import ContainerRegistry.Analysis.Challenges
import ContainerRegistry.Analysis.MultipartCopies
import ContainerRegistry.Analysis.BlobEnumeration
import ContainerRegistry.Analysis.Schema1Builder
import ContainerRegistry.Analysis.Regulator
