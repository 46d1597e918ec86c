import Web3Storage.Foundations.FiniteMap
import Web3Storage.Foundations.Fallible
import Web3Storage.Foundations.Run
import Web3Storage.Foundations.ReverseIndex
import Web3Storage.Foundations.Ledger
import Web3Storage.Foundations.Backing
import Web3Storage.Foundations.Blake2b
import Web3Storage.Foundations.MerkleTree
import Web3Storage.Foundations.MerkleSplit
import Web3Storage.Foundations.MerkleRebuild
import Web3Storage.Foundations.Chunks
import Web3Storage.Foundations.MountainRange
import Web3Storage.Foundations.Grouping
import Web3Storage.Foundations.OrderedFeed
import Web3Storage.Foundations.SortedKeys
import Web3Storage.Foundations.SortedTable
import Web3Storage.Foundations.MarkedList
import Web3Storage.Foundations.WindowSlot
import Web3Storage.Foundations.Codec
import Web3Storage.Foundations.Utf8
import Web3Storage.Foundations.PathMap
import Web3Storage.Foundations.Refinement
import Web3Storage.Primitives.Types
import Web3Storage.Primitives.Scale
import Web3Storage.Primitives.Merkle
import Web3Storage.Primitives.Mmr
import Web3Storage.Primitives.MerkleProofs
import Web3Storage.Primitives.Bagging
import Web3Storage.Primitives.ChunkTree
import Web3Storage.Primitives.TreeShape
import Web3Storage.Primitives.HashTerms
import Web3Storage.Primitives.MmrBinding
import Web3Storage.Pallet.State
import Web3Storage.Pallet.Funds
import Web3Storage.Pallet.Signatures
import Web3Storage.Pallet.Members
import Web3Storage.Pallet.Buckets
import Web3Storage.Pallet.Providers
import Web3Storage.Pallet.Quotes
import Web3Storage.Pallet.Agreements
import Web3Storage.Pallet.Checkpoints
import Web3Storage.Pallet.Challenges
import Web3Storage.Pallet.Dispatch
import Web3Storage.Pallet.Mock
import Web3Storage.Pallet.Effect
import Web3Storage.Pallet.Funding
import Web3Storage.Pallet.BucketIds
import Web3Storage.Pallet.FrozenBuckets
import Web3Storage.Pallet.Membership
import Web3Storage.Pallet.SignerBits
import Web3Storage.Pallet.HistoricalRoots
import Web3Storage.Pallet.Redemptions
import Web3Storage.Pallet.Extensions
import Web3Storage.Pallet.ReplicaSyncs
import Web3Storage.Pallet.Bookkeeping
import Web3Storage.Pallet.CommittedBytes
import Web3Storage.Pallet.Collateral
import Web3Storage.Pallet.Marketplace
import Web3Storage.Pallet.ChallengeIds
import Web3Storage.Pallet.ValueConservation
import Web3Storage.Pallet.OpenChallenges
import Web3Storage.Pallet.IndexEntries
import Web3Storage.Pallet.ChallengeDeposits
import Web3Storage.Pallet.Deregistration
import Web3Storage.Pallet.StorageDeposits
import Web3Storage.Node.ChainState
import Web3Storage.Node.Negotiation
import Web3Storage.Node.Store
import Web3Storage.Node.StoreAccounting
import Web3Storage.Node.StoreRetries
import Web3Storage.Node.NodeUploads
import Web3Storage.Node.ReplicaFetch
import Web3Storage.Node.CommitmentHistory
import Web3Storage.Node.CommitAndPrune
import Web3Storage.Node.ChunkReads
import Web3Storage.Node.ChunkRanges
import Web3Storage.Node.Coordinator
import Web3Storage.Node.ProviderView
import Web3Storage.Node.AccessFeed
import Web3Storage.Client.Base
import Web3Storage.Client.CheckpointBatch
import Web3Storage.Client.Download
import Web3Storage.Client.Uploads
import Web3Storage.Formats.Paging
import Web3Storage.Formats.DirectoryNodes
import Web3Storage.Formats.FileTree
import Web3Storage.Formats.ObjectListing
import Web3Storage.Formats.Format
import Web3Storage.Formats.Roots
import Web3Storage.Formats.Manifests
import Web3Storage.Formats.BlobKinds
import Web3Storage.Formats.CanonicalBlobs
import Web3Storage.Formats.FileWrites
import Web3Storage.Formats.FileSystem
import Web3Storage.Formats.DriveTree
import Web3Storage.Formats.DriveReads
import Web3Storage.Formats.DriveWrites
import Web3Storage.Formats.MemoryStore
import Web3Storage.Formats.Drive
import Web3Storage.Formats.DriveEntries
import Web3Storage.Formats.DriveFiles
import Web3Storage.Formats.SharedDrive
import Web3Storage.Formats.Objects
import Web3Storage.Formats.ObjectMap
import Web3Storage.Formats.ObjectPages
import Web3Storage.Client.ProviderDiscovery
import Web3Storage.Node.MembershipCache
import Web3Storage.Node.CacheFreshness
import Web3Storage.Node.LookupFreshness
import Web3Storage.Indexers.EventStream
import Web3Storage.Packages.CoreMerkle
import Web3Storage.Packages.CoreNodes
import Web3Storage.Packages.ProviderHttp
import Web3Storage.Packages.BlobReads
