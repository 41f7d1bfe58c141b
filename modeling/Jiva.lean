import Jiva.ByteCounts
import Jiva.Chain
import Jiva.ChainInvariant
import Jiva.ChainOps
import Jiva.CheckedReads
import Jiva.CheckedWrites
import Jiva.Checkpoint
import Jiva.Cleaner
import Jiva.Coalesce
import Jiva.Coherent
import Jiva.Controller
import Jiva.ControllerRuns
import Jiva.DamagedDir
import Jiva.DataPath
import Jiva.DataServer
import Jiva.DiffDisk
import Jiva.Discard
import Jiva.Effects
import Jiva.Election
import Jiva.EqualSizes
import Jiva.ExtentScan
import Jiva.FailedSnapshot
import Jiva.Faults
import Jiva.FindExtents
import Jiva.FlatDisk
import Jiva.Framing
import Jiva.FullWrite
import Jiva.Hoare
import Jiva.Histories
import Jiva.HoleDrain
import Jiva.Holes
import Jiva.Image
import Jiva.IoReports
import Jiva.LatestSnapshot
import Jiva.Layers
import Jiva.LazyLookup
import Jiva.Lineage
import Jiva.Links
import Jiva.Live
import Jiva.LunMap
import Jiva.LunMerge
import Jiva.Markers
import Jiva.Membership
import Jiva.MetadataFile
import Jiva.Mirror
import Jiva.NodeView
import Jiva.OpenChain
import Jiva.Operations
import Jiva.Persistence
import Jiva.Preload
import Jiva.Preloaded
import Jiva.Quorum
import Jiva.Rebuild
import Jiva.RebuildCheck
import Jiva.RemoveSnapshot
import Jiva.Reopen
import Jiva.Replica
import Jiva.ReplicaIo
import Jiva.ReplicaRuns
import Jiva.ReplicaSpec
import Jiva.ReplicaTable
import Jiva.Replicator
import Jiva.Requests
import Jiva.Reread
import Jiva.ResizeReopen
import Jiva.Rpc
import Jiva.RpcInv
import Jiva.RpcMatching
import Jiva.Runs
import Jiva.ScanInv
import Jiva.ServerFiles
import Jiva.Sizes
import Jiva.SnapshotCleaner
import Jiva.SparseFile
import Jiva.Status
import Jiva.Stocked
import Jiva.SyncAgent
import Jiva.TableCover
import Jiva.Undisturbed
import Jiva.UserSnapshots
import Jiva.Walks
import Jiva.Wire
import Jiva.WriteQuorum
