import HplfMalloc.CacheBounds
import HplfMalloc.CacheFlush
import HplfMalloc.CacheLifecycle
import HplfMalloc.CallReturn
import HplfMalloc.Conservation
import HplfMalloc.ErrnoDiscipline
import HplfMalloc.Eviction
import HplfMalloc.FailedAllocation
import HplfMalloc.HeapRefinement
import HplfMalloc.Layout
import HplfMalloc.LeakFreedom
import HplfMalloc.Ledger
import HplfMalloc.Linearizability
import HplfMalloc.LiveRanges
import HplfMalloc.Metadata
import HplfMalloc.QueueProgress
import HplfMalloc.SizeArithmetic
import HplfMalloc.SlabContention
import HplfMalloc.SlabPartition
import HplfMalloc.SmallAllocation
import HplfMalloc.Snapshot
import HplfMalloc.SnapshotOracle
import HplfMalloc.TraceBounds
import HplfMalloc.TransferOwnership
import HplfMalloc.TransferProgress
import HplfMalloc.TransferRefinement
import HplfMalloc.TransferSplit
import HplfMalloc.TrimSafety
import HplfMalloc.TrimSpec
import HplfMalloc.VariantEquivalence
import HplfMalloc.WorkerPoolProgress
import HplfMalloc.Lib.Barrier
import HplfMalloc.Proof.RingDescent
import HplfMalloc.RingFailure
