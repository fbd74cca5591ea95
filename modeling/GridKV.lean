import GridKV.ForStd.AgedCount
import GridKV.ForStd.BitArray
import GridKV.ForStd.Channel
import GridKV.ForStd.Decimal
import GridKV.ForStd.Endian
import GridKV.ForStd.FirstSeen
import GridKV.ForStd.Go
import GridKV.ForStd.Halting
import GridKV.ForStd.HappensBefore
import GridKV.ForStd.Interleave
import GridKV.ForStd.KeyedList
import GridKV.ForStd.Lease
import GridKV.ForStd.LinkedList
import GridKV.ForStd.Lww
import GridKV.ForStd.MapWeight
import GridKV.ForStd.MinHeap
import GridKV.ForStd.Parse
import GridKV.ForStd.RingBuffer
import GridKV.ForStd.Run
import GridKV.ForStd.Smear
import GridKV.Model.AcceptLoop
import GridKV.Model.AntiEntropy
import GridKV.Model.BufferPool
import GridKV.Model.BulkRead
import GridKV.Model.Checkpoint
import GridKV.Model.Cluster
import GridKV.Model.Compress
import GridKV.Model.ConflictRules
import GridKV.Model.ConnPool
import GridKV.Model.Detector
import GridKV.Model.Executor
import GridKV.Model.FlushSteps
import GridKV.Model.Gossip
import GridKV.Model.GossipWire
import GridKV.Model.HashRing
import GridKV.Model.HintedHandoff
import GridKV.Model.Hlc
import GridKV.Model.HotCache
import GridKV.Model.Lifecycle
import GridKV.Model.MemStorage
import GridKV.Model.Member
import GridKV.Model.MemberCodec
import GridKV.Model.MemberSteps
import GridKV.Model.Message
import GridKV.Model.MessageBuffers
import GridKV.Model.NetworkClient
import GridKV.Model.PoolStats
import GridKV.Model.PoolSteps
import GridKV.Model.ReadAttempts
import GridKV.Model.ReadRepair
import GridKV.Model.Reader
import GridKV.Model.Recovery
import GridKV.Model.Replay
import GridKV.Model.Resize
import GridKV.Model.RingSteps
import GridKV.Model.RingUpdate
import GridKV.Model.Scheduler
import GridKV.Model.SendRetry
import GridKV.Model.Server
import GridKV.Model.SpeculativeSteps
import GridKV.Model.StoreSteps
import GridKV.Model.SyncCodec
import GridKV.Model.SyncRing
import GridKV.Model.TinyLFU
import GridKV.Model.TtlCache
import GridKV.Model.Writer
import GridKV.Spec.AcceptLoop
import GridKV.Spec.AcceptedTasks
import GridKV.Spec.AntiEntropy
import GridKV.Spec.ApplyErrors
import GridKV.Spec.ApplyJoin
import GridKV.Spec.BatchReads
import GridKV.Spec.BulkReads
import GridKV.Spec.CacheLists
import GridKV.Spec.CacheRaces
import GridKV.Spec.Causality
import GridKV.Spec.CheckpointCrash
import GridKV.Spec.CheckpointReplay
import GridKV.Spec.ClockMerge
import GridKV.Spec.ClosedScheduler
import GridKV.Spec.CompetingDrains
import GridKV.Spec.ConcurrentSets
import GridKV.Spec.ConflictRules
import GridKV.Spec.ConnectOrSync
import GridKV.Spec.ConsistencyLevels
import GridKV.Spec.DamagedCheckpoint
import GridKV.Spec.DecodeBounds
import GridKV.Spec.Decompress
import GridKV.Spec.EntropyRounds
import GridKV.Spec.EvictionTurns
import GridKV.Spec.ExecutorSteps
import GridKV.Spec.ExpiryCount
import GridKV.Spec.ExpiryRace
import GridKV.Spec.FailedStart
import GridKV.Spec.FlushDelivery
import GridKV.Spec.FlushPending
import GridKV.Spec.Framing
import GridKV.Spec.Frequencies
import GridKV.Spec.HandoffRaces
import GridKV.Spec.HlcOrder
import GridKV.Spec.HlcText
import GridKV.Spec.HonestCounters
import GridKV.Spec.Incarnations
import GridKV.Spec.Leaving
import GridKV.Spec.LocalDelete
import GridKV.Spec.LocalWrites
import GridKV.Spec.LongKeys
import GridKV.Spec.LossyCache
import GridKV.Spec.MemberHandlers
import GridKV.Spec.MemberRoundTrip
import GridKV.Spec.MemberSafety
import GridKV.Spec.MemberWire
import GridKV.Spec.MemoryAccounting
import GridKV.Spec.MemoryLimit
import GridKV.Spec.MergeOrder
import GridKV.Spec.MessageLeaks
import GridKV.Spec.MessageRoundTrip
import GridKV.Spec.MonotoneReads
import GridKV.Spec.PingExchange
import GridKV.Spec.Placement
import GridKV.Spec.PoolBalance
import GridKV.Spec.PoolLimit
import GridKV.Spec.PoolSlots
import GridKV.Spec.PoolWaiters
import GridKV.Spec.ProbeReplies
import GridKV.Spec.ProxyChoice
import GridKV.Spec.PullMessages
import GridKV.Spec.ReadBack
import GridKV.Spec.ReadConvergence
import GridKV.Spec.RecencyOrder
import GridKV.Spec.RejectedWrites
import GridKV.Spec.RemoteReads
import GridKV.Spec.RepairRaces
import GridKV.Spec.RepairRate
import GridKV.Spec.ReplicaReach
import GridKV.Spec.ReportedSends
import GridKV.Spec.RequestPairing
import GridKV.Spec.ResizeRaces
import GridKV.Spec.RingFollows
import GridKV.Spec.RingVersions
import GridKV.Spec.SelfAlive
import GridKV.Spec.ShardCounters
import GridKV.Spec.ShardTable
import GridKV.Spec.Silence
import GridKV.Spec.SpeculativeEnd
import GridKV.Spec.SpeculativeReads
import GridKV.Spec.StaleNews
import GridKV.Spec.StampedVersions
import GridKV.Spec.StartOrder
import GridKV.Spec.StopProgress
import GridKV.Spec.StoreEntries
import GridKV.Spec.StoreLww
import GridKV.Spec.StoreMoves
import GridKV.Spec.SyncDrain
import GridKV.Spec.SyncOpsWire
import GridKV.Spec.SyncQueue
import GridKV.Spec.SyncValues
import GridKV.Spec.Timers
import GridKV.Spec.UnreachableReads
import GridKV.Spec.WriteAmplification
import GridKV.Spec.WriterAgreement
import GridKV.Spec.WriterEffects
import GridKV.Spec.WriterOffers
