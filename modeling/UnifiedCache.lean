import UnifiedCache.Lib.Machine
import UnifiedCache.Lib.DLinked
import UnifiedCache.Lib.PinPool
import UnifiedCache.Lib.Pipeline
import UnifiedCache.Lib.Ledger
import UnifiedCache.Lib.FileSystem
import UnifiedCache.Lib.Stripes
import UnifiedCache.Lib.Locks
import UnifiedCache.Lib.Ring
import UnifiedCache.Cache.TransBuffer
import UnifiedCache.Cache.Store
import UnifiedCache.Cache.Pins
import UnifiedCache.Cache.Completion
import UnifiedCache.Cache.Durability
import UnifiedCache.Cache.BufferManager
import UnifiedCache.Cache.Dones
import UnifiedCache.Cache.Proofs.TransBufferProofs
import UnifiedCache.Cache.Proofs.BufferClientsProofs
import UnifiedCache.Cache.Proofs.PinsProofs
import UnifiedCache.Cache.Proofs.OwnersProofs
import UnifiedCache.Cache.Proofs.CompletionProofs
import UnifiedCache.Cache.Proofs.DurabilityProofs
import UnifiedCache.Cache.Proofs.DumpPinsProofs
import UnifiedCache.Cache.Proofs.BufferManagerProofs
import UnifiedCache.Cache.Proofs.DonesProofs
import UnifiedCache.Infra.ThreadPool
import UnifiedCache.Infra.SpscRingQueue
import UnifiedCache.Infra.TopNHeap
import UnifiedCache.Infra.Proofs.ThreadPoolProofs
import UnifiedCache.Infra.Proofs.ThreadPoolWorkProofs
import UnifiedCache.Infra.Proofs.SpscRingQueueProofs
import UnifiedCache.Infra.Proofs.TopNHeapProofs
import UnifiedCache.Posix.TransQueue
import UnifiedCache.Posix.Lookup
import UnifiedCache.Posix.Dump
import UnifiedCache.Posix.Transfer
import UnifiedCache.Posix.ShardGc
import UnifiedCache.Posix.Proofs.TransQueueProofs
import UnifiedCache.Posix.Proofs.DumpProofs
import UnifiedCache.Posix.Proofs.LookupProofs
import UnifiedCache.Posix.Proofs.LookupBlocksProofs
import UnifiedCache.Posix.Proofs.TransferProofs
import UnifiedCache.Posix.Proofs.ShardGcProofs
import UnifiedCache.Connector.Dispatch
import UnifiedCache.Connector.Worker
import UnifiedCache.Connector.Repair
import UnifiedCache.Connector.Engine
import UnifiedCache.Connector.Proofs.DispatchProofs
import UnifiedCache.Connector.Proofs.WorkerProofs
import UnifiedCache.Connector.Proofs.RepairProofs
import UnifiedCache.Connector.Proofs.EngineProofs
import UnifiedCache.Connector.LayerWise
import UnifiedCache.Connector.Proofs.LayerWiseProofs
import UnifiedCache.Connector.Proofs.LayerSaveProofs
import UnifiedCache.Connector.Proofs.LayerRefinementProofs
import UnifiedCache.Connector.Keys
import UnifiedCache.Connector.Proofs.KeysProofs
import UnifiedCache.Connector.ContextParallel
import UnifiedCache.Connector.Proofs.ContextParallelProofs
import UnifiedCache.Cache.BufferLocks
import UnifiedCache.Cache.Proofs.BufferLocksProofs
import UnifiedCache.Cache.Submit
import UnifiedCache.Cache.Proofs.SubmitProofs
import UnifiedCache.PcStore.TransQueue
import UnifiedCache.PcStore.Proofs.DonesProofs
import UnifiedCache.PcStore.Proofs.CommitProofs
import UnifiedCache.Lib.Probing
import UnifiedCache.PcStore.ShareBuffer
import UnifiedCache.PcStore.Proofs.ShareTableProofs
import UnifiedCache.PcStore.Proofs.ShareLoadProofs
import UnifiedCache.NfsStore.Space
import UnifiedCache.NfsStore.Proofs.SpaceProofs
import UnifiedCache.Lib.Strides
import UnifiedCache.Gsa.KeyHashCache
import UnifiedCache.Gsa.Proofs.KeyHashCacheProofs
import UnifiedCache.Cache.Proofs.LookupUnionProofs
import UnifiedCache.Connector.Proofs.PromiseProofs
import UnifiedCache.Connector.Proofs.BlendProofs
import UnifiedCache.Mindie.Proofs.MempoolProofs
import UnifiedCache.Sparse.Proofs.BlockHashesProofs
import UnifiedCache.Ds3fs.Proofs.TransQueueProofs
import UnifiedCache.Gsa.Proofs.PrefetchProofs
import UnifiedCache.Gsa.Proofs.BlocksProofs
import UnifiedCache.Sparse.Proofs.RetrieveTaskProofs
import UnifiedCache.Gsa.Proofs.CalKpreAndTopkProofs
import UnifiedCache.Cache.Proofs.FetchNodeProofs
import UnifiedCache.Infra.Proofs.HeapRefinementProofs
import UnifiedCache.Infra.Proofs.HashSetProofs
import UnifiedCache.Infra.Proofs.SpscProofs
import UnifiedCache.Infra.Proofs.TraversalsProofs
import UnifiedCache.Posix.Proofs.GcPassProofs
import UnifiedCache.Gsa.Proofs.HammingTopkProofs
import UnifiedCache.Gsa.Proofs.SparseMetaProofs
import UnifiedCache.Gsa.Proofs.DecodeTopkProofs
import UnifiedCache.Lib.Pairing
import UnifiedCache.Kvstar.Proofs.QueryCaptureProofs
import UnifiedCache.Kvstar.Proofs.WindowProofs
import UnifiedCache.Kvstar.Proofs.ScheduleProofs
import UnifiedCache.Kvstar.Proofs.KeptBlocksProofs
import UnifiedCache.Esa.ReqState
import UnifiedCache.Esa.Proofs.PrefillProofs
import UnifiedCache.Esa.Proofs.SwapAreaProofs
import UnifiedCache.Kvstar.Proofs.SwapAreaProofs
import UnifiedCache.Sparse.Proofs.SwapAreaProofs
import UnifiedCache.Esa.Proofs.WindowsProofs
import UnifiedCache.Mindie.Proofs.PrefixHashProofs
import UnifiedCache.Gsa.Proofs.MvMapProofs
import UnifiedCache.Mindie.Proofs.PrefixCacheProofs
import UnifiedCache.Trans.Proofs.SmStreamProofs
import UnifiedCache.Esa.Proofs.WorkerRunProofs
import UnifiedCache.Posix.Proofs.SpaceLayoutProofs
import UnifiedCache.NfsStore.Proofs.RecycleProofs
import UnifiedCache.Metrics.Proofs.MetricsProofs
import UnifiedCache.Detail.Proofs.TaskManagerProofs
import UnifiedCache.Connector.Proofs.CpuAffinityProofs
import UnifiedCache.Cache.Proofs.AllocProofs
import UnifiedCache.Infra.Proofs.IndexPoolProofs
import UnifiedCache.Connector.Proofs.DeltaRopeProofs
import UnifiedCache.NfsStore.Proofs.RecycleServiceProofs
import UnifiedCache.Infra.Proofs.RotatingFileSinkProofs
import UnifiedCache.Lib.Masks
import UnifiedCache.Sparse.Blend
import UnifiedCache.Sparse.Proofs.BlendPruneProofs
import UnifiedCache.Lib.PartialSort
import UnifiedCache.Sparse.RetrievalBackend
import UnifiedCache.Sparse.Proofs.RetrievalBackendProofs
import UnifiedCache.Sparse.Proofs.RetrievalServedProofs
import UnifiedCache.Lib.OnlineSoftmax
import UnifiedCache.Sparse.UnifiedAttention
import UnifiedCache.Sparse.Proofs.UnifiedAttentionProofs
import UnifiedCache.Sparse.Proofs.AttentionKernelsProofs
import UnifiedCache.Sparse.Rerope
import UnifiedCache.Sparse.Proofs.ReropeProofs
import UnifiedCache.Sparse.BlendForward
import UnifiedCache.Sparse.Proofs.BlendForwardProofs
