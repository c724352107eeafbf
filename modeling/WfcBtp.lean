import WfcBtp.Library.OrderedMap
import WfcBtp.Library.OrderedMultiset
import WfcBtp.Library.Runs
import WfcBtp.Library.Guarded
import WfcBtp.Library.RunningMax
import WfcBtp.Library.Interleaving
import WfcBtp.Library.Separators
import WfcBtp.Library.Stretches
import WfcBtp.Library.Ownership
import WfcBtp.Library.Pages
import WfcBtp.Library.Rows
import WfcBtp.Library.Batches
import WfcBtp.Library.MergeLog
import WfcBtp.Library.Simulation
import WfcBtp.Model.Types
import WfcBtp.Model.Wrtstat
import WfcBtp.Model.WrtstatReference
import WfcBtp.Model.KeyAggregator
import WfcBtp.Model.KeyCache
import WfcBtp.Model.KeyCacheSelect
import WfcBtp.Model.DataStorage
import WfcBtp.Model.DataLog
import WfcBtp.Model.KeyStorage
import WfcBtp.Model.Storage
import WfcBtp.Model.Checked
import WfcBtp.Model.Calls
import WfcBtp.Model.Reserving
import WfcBtp.Model.Concurrency
import WfcBtp.Model.Lifecycle
import WfcBtp.Model.DomainLife
import WfcBtp.Model.ShardDisk
import WfcBtp.Model.AgDomain
import WfcBtp.Model.RtDomain
import WfcBtp.Model.RtForwarding
import WfcBtp.Proofs.KeyCacheIndexes
import WfcBtp.Proofs.DataRows
import WfcBtp.Proofs.Writes
import WfcBtp.Proofs.Reopening
import WfcBtp.Proofs.Ledger
import WfcBtp.Proofs.Accounting
import WfcBtp.Proofs.Conservation
import WfcBtp.Proofs.Discarding
import WfcBtp.Proofs.MergeAdd
import WfcBtp.Proofs.ConcurrentAdds
import WfcBtp.Proofs.ConcurrentDels
import WfcBtp.Proofs.KeysPersisted
import WfcBtp.Proofs.Restart
import WfcBtp.Proofs.Provenance
import WfcBtp.Proofs.LastPeriod
import WfcBtp.Proofs.Reseeding
import WfcBtp.Proofs.OpenClose
import WfcBtp.Proofs.InfoFields
import WfcBtp.Proofs.PowerValues
import WfcBtp.Proofs.TreeNodes
import WfcBtp.Proofs.TreeDepth
import WfcBtp.Proofs.TreeWalk
import WfcBtp.Proofs.KeyIds
import WfcBtp.Proofs.StorageParts
import WfcBtp.Proofs.Lifecycle
import WfcBtp.Proofs.ParallelLoad
import WfcBtp.Proofs.FailedAdd
import WfcBtp.Proofs.TellingApart
import WfcBtp.Proofs.RetriedAdd
import WfcBtp.Proofs.FailedDel
import WfcBtp.Proofs.MergeOrder
import WfcBtp.Proofs.MergeDominates
import WfcBtp.Proofs.KeyInfos
import WfcBtp.Proofs.LastUpdate
import WfcBtp.Proofs.GcTolerance
import WfcBtp.Proofs.SelectPages
import WfcBtp.Proofs.TreePages
import WfcBtp.Proofs.ReadWindow
import WfcBtp.Proofs.MultiAdd
import WfcBtp.Proofs.KeyInfoMaxima
import WfcBtp.Proofs.Divisions
import WfcBtp.Proofs.LoadBatches
import WfcBtp.Proofs.FanOut
import WfcBtp.Proofs.LazyMerge
import WfcBtp.Proofs.CallWrites
import WfcBtp.Proofs.Frames
import WfcBtp.Proofs.CallsReturn
import WfcBtp.Proofs.AttemptTable
import WfcBtp.Proofs.CountTable
import WfcBtp.Proofs.StableReads
import WfcBtp.Proofs.Isolation
import WfcBtp.Proofs.ShardDisk
import WfcBtp.Proofs.Pipeline
import WfcBtp.Proofs.LockedCache
import WfcBtp.Proofs.SerialCache
import WfcBtp.Proofs.DomainLife
