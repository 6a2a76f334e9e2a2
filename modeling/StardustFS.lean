import StardustFS.KeyedTable
import StardustFS.Transitions
import StardustFS.TextPath
import StardustFS.LikePattern
import StardustFS.MetadataStore
import StardustFS.ConflictResolver
import StardustFS.ConflictNames
import StardustFS.DirectoryTree
import StardustFS.StorageSource
import StardustFS.JbodManager
import StardustFS.SyncClient
import StardustFS.SyncMerge
import StardustFS.ConflictDetection
import StardustFS.OrphanGc
import StardustFS.UploadRace
import StardustFS.SyncExchange
import StardustFS.SnapshotSuccession
import StardustFS.JbodOperations
import StardustFS.Turns
import StardustFS.Sessions
import StardustFS.Rebaseline
import StardustFS.Chunks
import StardustFS.Chunker
import StardustFS.VolumePlaces
import StardustFS.ReplicationManager
import StardustFS.ReplicationScheduler
import StardustFS.HealGrace
import StardustFS.FailedQueries
import StardustFS.ReplicatedStatus
import StardustFS.SkippedBackups
import StardustFS.RepeatedMerge
import StardustFS.MergeCoverage
import StardustFS.RenamePropagation
import StardustFS.ConflictCopies
import StardustFS.FirstUploads
import StardustFS.VersionAgreement
import StardustFS.UnsentDeletions
import StardustFS.DirectoryListing
import StardustFS.DirectoryRemoval
import StardustFS.MoveDirectory
import StardustFS.StoreConnection
import StardustFS.PrefixRenaming
import StardustFS.ListingExactness
import StardustFS.DeleteDirectory
import StardustFS.DeleteRecursion
import StardustFS.OwnWrites
import StardustFS.FsEncoding
import StardustFS.ParityStore
import StardustFS.ChunkIsolation
import StardustFS.JsonText
import StardustFS.ParityIndex
import StardustFS.ParityFaults
import StardustFS.ParityRecovery
import StardustFS.Simulation
import StardustFS.ManagedFiles
import StardustFS.VolumeRefinement
import StardustFS.GcExactness
import StardustFS.GcRace
import StardustFS.LastBackup
import StardustFS.ReplicaHealing
import StardustFS.ReplicaHealth
import StardustFS.ReplicaVersions
import StardustFS.FaultyVolume
import StardustFS.SourceFaults
import StardustFS.FailureAtomicity
import StardustFS.TokenRefresh
import StardustFS.RefreshRotation
import StardustFS.Logout
import StardustFS.JsonValue
import StardustFS.PosixPath
import StardustFS.P2PServer
import StardustFS.PathCheck
import StardustFS.Base64
import StardustFS.PosixFiles
import StardustFS.ServedSources
import StardustFS.P2PAuthorization
import StardustFS.ShareTokens
import StardustFS.CliPaths
import StardustFS.SourceCalls
import StardustFS.PathConfinement
import StardustFS.ConfigLoader
import StardustFS.CoreAssembly
import StardustFS.StartUp
import StardustFS.ConfigMigration
import StardustFS.HolePunch
import StardustFS.KeyBackup
import StardustFS.KeyRecovery
import StardustFS.Daemon
import StardustFS.Staleness
import StardustFS.InterruptedMigration
import StardustFS.ConcurrentMigration
import StardustFS.LoopbackAccounting
import StardustFS.LoopbackSharing
import StardustFS.P2POperations
import StardustFS.Envelopes
import StardustFS.SourceSelection
import StardustFS.RemoteSource
import StardustFS.DisplayedPaths
import StardustFS.PosixOutcomes
import StardustFS.SourceOutages
import StardustFS.ProxyRequests
import StardustFS.RelayDelivery
import StardustFS.PosixFrames
import StardustFS.RequestConfinement
import StardustFS.HolderDelivery
import StardustFS.MakeDirectories
import StardustFS.Subtrees
import StardustFS.MountedTrees
import StardustFS.DiskRefinement
import StardustFS.RemoteReads
import StardustFS.JsonReader
import StardustFS.JsonRoundTrip
import StardustFS.SourceEditing
import StardustFS.EditedConfig
