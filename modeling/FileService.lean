import FileService.Interaction.Program
import FileService.Interaction.Machine
import FileService.Common.Result
import FileService.Common.Text
import FileService.Domain.FileMetadata
import FileService.Common.Indexed
import FileService.Infra.LocationMemory
import FileService.Infra.MetadataMemory
import FileService.Infra.MetadataRows
import FileService.Infra.BlobMemory
import FileService.Infra.LeaseMemory
import FileService.Domain.Ports
import FileService.Domain.World
import FileService.App.ObjectKeyPolicy
import FileService.App.Support
import FileService.App.CreateFileMetadata
import FileService.App.Upload
import FileService.App.GcTask
import FileService.Domain.Effects
import FileService.Domain.Schedule
import FileService.Protocols.Replies
import FileService.Protocols.Create
import FileService.Protocols.CreateFollows
import FileService.Safety.SingleRegistrar
import FileService.Safety.CreateTracking
import FileService.Safety.Rollback
import FileService.Safety.ClaimDiscipline
import FileService.Interaction.Trace
import FileService.Posix.Calls
import FileService.Posix.CommitBatch
import FileService.Interaction.Execution
import FileService.Sqlite.Connection
import FileService.Sqlite.GroupCommit
import FileService.Sqlite.MetadataTable
import FileService.Sqlite.MetadataRepository
import FileService.Sqlite.LockedWrites
import FileService.Sqlite.Batching
import FileService.Interaction.Reliance
import FileService.Sqlite.LocationReads
import FileService.Repositories.MetadataRuns
import FileService.Safety.OrphanScan
import FileService.Posix.BlobStore
import FileService.Posix.FileSystem
import FileService.Posix.FailedPut
import FileService.Posix.ObjectReads
import FileService.Posix.PublishedPut
import FileService.Posix.PutAtomicity
import FileService.App.Copies
import FileService.Checksums.Invariant
import FileService.Checksums.Objects
import FileService.Checksums.Create
import FileService.Checksums.UseCases
import FileService.Checksums.Registered
import FileService.Safety.DryRun
import FileService.Safety.LeaseStage
import FileService.Safety.LiveObjects
import FileService.Safety.DryRunEffect
import FileService.Safety.DryRunReports
import FileService.Repositories.LeaseRuns
import FileService.Safety.LeaseRounds
import FileService.Safety.IssuedKeys
import FileService.Common.Segments
import FileService.Safety.KeyNames
import FileService.Protocols.Issue
import FileService.Safety.IssueRaces
import FileService.App.Queries
import FileService.Audit.Notes
import FileService.Audit.Creation
import FileService.Audit.UseCases
import FileService.Audit.Registration
import FileService.Audit.Guarded
import FileService.App.Partitions
import FileService.Safety.Containers
import FileService.Common.Members
import FileService.Domain.RecordJson
import FileService.Domain.RecordRoundTrip
import FileService.Repositories.RecordRows
import FileService.Domain.RecordIngest
import FileService.Common.JsonText
import FileService.Sqlite.LocationWrites
import FileService.Repositories.LocationRuns
import FileService.Interaction.Embedding
import FileService.Safety.ZoneStores
import FileService.Safety.ZoneCopies
import FileService.Http.Message
import FileService.Http.Ranges
import FileService.Http.BodyPump
import FileService.Http.Dispatch
import FileService.Http.StreamedUpload
import FileService.Http.SharedError
import FileService.Http.LargeFilePlane
import FileService.Http.Smuggling
import FileService.Http.ControlPlane
import FileService.Http.PlanesAgree
import FileService.Common.Crypto
import FileService.Transfer.Token
import FileService.Transfer.Issued
import FileService.Transfer.Endpoint
import FileService.Safety.IssuedSources
import FileService.Safety.UploadCoverage
import FileService.Common.Percent
import FileService.S3.SigV4
import FileService.Posix.Delivery
import FileService.Interaction.Component
import FileService.Postgres.LeaderElection
import FileService.Postgres.LeaderFlag
import FileService.Postgres.Leadership
import FileService.Postgres.ConnectionPool
import FileService.Postgres.PoolInvariant
import FileService.Postgres.MetadataTable
import FileService.Postgres.MetadataRepository
import FileService.Postgres.VersionChains
import FileService.Postgres.MetadataCalls
import FileService.Postgres.VersionHistory
import FileService.Readiness.Instances
import FileService.Readiness.Agreement
import FileService.Readiness.Monitors
import FileService.Readiness.Calm
import FileService.Posix.Copying
import FileService.Posix.CopyOutcome
import FileService.Common.Paging
import FileService.Posix.Listing
import FileService.Posix.Iteration
import FileService.S3.BlobStore
import FileService.S3.Answers
import FileService.S3.Outcomes
import FileService.Common.Delimited
import FileService.App.ExpiryBounds
import FileService.Http.RangeReference
import FileService.Streams.Source
import FileService.Streams.Throttled
import FileService.Streams.Polling
import FileService.Streams.Limited
import FileService.Grpc.UploadSource
import FileService.Grpc.UploadedPut
import FileService.Interaction.Evaluation
import FileService.App.FileListing
import FileService.App.PageRequests
import FileService.Leasing.Tenure
import FileService.Postgres.LeaseTable
import FileService.Repositories.LeaseDurations
import FileService.Safety.Addressing
import FileService.Safety.CopyRequests
import FileService.Interaction.Fairness
import FileService.Posix.BatchActions
import FileService.Posix.BatchProgress
import FileService.Posix.SharedCommits
import FileService.Auth.JwtPolicy
import FileService.Common.Base64Spelling
import FileService.Net.NormalForm
import FileService.Safety.KeysInside
import FileService.Logging.JsonString
import FileService.Logging.TextRedaction
import FileService.Time.RoundTrip
import FileService.Configuration.Faithful
import FileService.Http.StreamPump
import FileService.Posix.CopyFd
import FileService.S3.Documents
import FileService.Remote.ServiceRuns
