import GridKV.ForStd.KeyedList
import GridKV.ForStd.RingBuffer
import GridKV.Model.Compress

/-!
# The sharded in-memory store

Translation of `internal/mem_storage`.  Every exported method is one atomic step here:
the compare-and-swap loops of `Set` and `Delete` succeed at the first attempt when
nothing runs between their load and their swap.  A method returns the new state next to
its answer, since a failing `Set` may already have evicted entries and a failing `Get`
may have removed an expired one.

The counters of hits, misses, reads, writes and evictions are left out: only `Stats`
reads them.
-/

namespace GridKV

open Go

/-- `StoredItem` -/
structure StoredItem where
  version : Int64
  expireAt : Time
  value : Bytes
  key : GoString
  deriving DecidableEq, Repr

namespace StoredItem

/-- `StoredItem.IsTombstone` -/
def isTombstone (item : StoredItem) : Bool := item.value.length = 0 ∧ item.version > 0

end StoredItem

/-- `compressedItem` -/
structure CompressedItem where
  version : Int64
  expireAt : Time
  value : Bytes
  compressed : Bool
  origSize : Nat
  deriving DecidableEq, Repr

/-- `OpType`; the codec can produce values without a name. -/
inductive OpType where
  | set
  | delete
  | other (code : UInt8)
  deriving DecidableEq, Repr

/-- `SyncOperation`; the item is a pointer, nil for a deletion. -/
structure SyncOperation where
  key : GoString
  opType : OpType
  item : Option StoredItem
  deriving DecidableEq, Repr

/-- The errors of the store. -/
inductive StoreError where
  | notFound
  | expired
  | versionMismatch
  | memoryLimit
  | emptyKey
  | nilItem
  | decompressFailed
  deriving DecidableEq, Repr

/-- `shardLRU`: the list of keys, most recently used first, and the elements by key. -/
structure ShardLRU extends KeyedList GoString where
  inStep : toKeyedList.InStep

namespace ShardLRU

def empty : ShardLRU := ⟨.empty, KeyedList.inStep_empty⟩

/-- `touchLRU`: `MoveToFront` of a known key, `PushFront` of a new one. -/
def touch (lru : ShardLRU) (key : GoString) : ShardLRU where
  toKeyedList := lru.toKeyedList.touch key
  inStep := lru.inStep.touch key

/-- `removeFromLRU` -/
def remove (lru : ShardLRU) (key : GoString) : ShardLRU where
  toKeyedList := lru.toKeyedList.remove key
  inStep := lru.inStep.remove key

/-- The least recently used key.  Its element is the one `keyMap` points to, so that removing
    the last element and deleting its key from `keyMap` is `remove` of the key. -/
def back (lru : ShardLRU) : Option GoString := lru.order.getLast?

theorem nodup (lru : ShardLRU) : lru.order.Nodup := lru.inStep.nodup

@[simp] theorem order_touch (lru : ShardLRU) (key : GoString) :
    (lru.touch key).order = key :: lru.order.erase key := lru.inStep.order_touch key

@[simp] theorem order_remove (lru : ShardLRU) (key : GoString) :
    (lru.remove key).order = lru.order.erase key := lru.inStep.order_remove key

end ShardLRU

/-- Key and byte counts, kept for each shard and for the whole store. -/
structure Counters where
  keys : Int64 := 0
  bytes : Int64 := 0
  compressed : Int64 := 0
  original : Int64 := 0
  deriving DecidableEq, Repr

def Counters.add (c d : Counters) : Counters where
  keys := c.keys + d.keys
  bytes := c.bytes + d.bytes
  compressed := c.compressed + d.compressed
  original := c.original + d.original

def Counters.neg (c : Counters) : Counters where
  keys := -c.keys
  bytes := -c.bytes
  compressed := -c.compressed
  original := -c.original

/-- `syncCapacity` -/
def syncCapacity : Nat := 8192

/-- `storageShard` -/
structure Shard where
  data : GoMap CompressedItem
  lru : ShardLRU
  syncBuffer : RingBuffer SyncOperation syncCapacity
  counters : Counters

def Shard.empty : Shard where
  data := ∅
  lru := .empty
  syncBuffer := .empty (by decide)
  counters := {}

/-- The configuration of a store, fixed once `New` has filled in the defaults. -/
structure StoreConfig where
  /-- The low half of `xxh3.HashString128`. -/
  hashLo : GoString → UInt64
  /-- `shardCount - 1` -/
  shardMask : UInt64
  maxMemoryMB : Int64 := 512
  compressionEnabled : Bool := true
  compressionThresh : Int := 64
  evictThreshold : Int64 := 85
  evictTarget : Int64 := 70
  evictBatchSize : Int := 10
  asyncEviction : Bool := true
  lz4 : LZ4

namespace StoreConfig

def shardCount (cfg : StoreConfig) : Nat := cfg.shardMask.toNat + 1

/-- The index `getShard` computes. -/
def shardIndex (cfg : StoreConfig) (key : GoString) : Nat :=
  (cfg.hashLo key &&& cfg.shardMask).toNat

end StoreConfig

/-- `nextPowerOf2`, in the arithmetic of `uint64`. -/
def nextPowerOf2 (n : UInt64) : UInt64 :=
  if n = 0 then 1
  else
    let n := n - 1
    let n := n ||| (n >>> 1)
    let n := n ||| (n >>> 2)
    let n := n ||| (n >>> 4)
    let n := n ||| (n >>> 8)
    let n := n ||| (n >>> 16)
    let n := n ||| (n >>> 32)
    n + 1

/-- `mem_storage.Config`, with the values of `DefaultConfig`. -/
structure MemConfig where
  maxMemoryMB : Int64 := 512
  shardCount : Int64 := 0
  compressionEnabled : Bool := true
  compressionThreshold : Int := 64
  evictThreshold : Int64 := 85
  evictTarget : Int64 := 70
  evictBatchSize : Int := 10
  asyncEviction : Bool := true

namespace MemConfig

/-- The number of shards `New` makes on `cpuCount` processors. -/
def shards (config : MemConfig) (cpuCount : Int64) : Int64 :=
  let shardCount :=
    if config.shardCount = 0 then
      let shardCount := cpuCount * 8
      let shardCount := if shardCount < 256 then 256 else shardCount
      if shardCount > 4096 then 4096 else shardCount
    else config.shardCount
  (nextPowerOf2 shardCount.toUInt64).toInt64

/-- The shards `New` makes: how many there are, and the mask that `getShard` selects with. -/
structure ShardTable where
  count : Nat
  shardMask : UInt64

/-- The index `getShard` computes. -/
def ShardTable.index (table : ShardTable) (hashLo : GoString → UInt64) (key : GoString) : Nat :=
  (hashLo key &&& table.shardMask).toNat

/-- The shards `New` makes; `none` where `make` panics because their number has overflown. -/
def table (config : MemConfig) (cpuCount : Int64) : Option ShardTable :=
  if config.shards cpuCount < 0 then none
  else some
    { count := (config.shards cpuCount).toInt.toNat
      shardMask := (config.shards cpuCount - 1).toUInt64 }

/-- The configuration of a store that `New` makes with at least one shard. -/
def new (config : MemConfig) (cpuCount : Int64) (hashLo : GoString → UInt64) (lz4 : LZ4) :
    Option StoreConfig :=
  if config.shards cpuCount ≤ 0 then none
  else
    let evictBatchSize := if config.evictBatchSize = 0 then 10 else config.evictBatchSize
    let evictBatchSize := if evictBatchSize < 1 then 1 else evictBatchSize
    some
      { hashLo
        shardMask := (config.shards cpuCount - 1).toUInt64
        maxMemoryMB := if config.maxMemoryMB ≤ 0 then 512 else config.maxMemoryMB
        compressionEnabled := config.compressionEnabled
        compressionThresh :=
          if config.compressionThreshold = 0 then 64 else config.compressionThreshold
        evictThreshold := if config.evictThreshold = 0 then 85 else config.evictThreshold
        evictTarget := if config.evictTarget = 0 then 70 else config.evictTarget
        evictBatchSize := if evictBatchSize > 100 then 100 else evictBatchSize
        -- Switched on also where the caller has switched it off.
        asyncEviction := if ¬config.asyncEviction then true else config.asyncEviction
        lz4 }

end MemConfig

/-- The mutable part of `MemStorage`. -/
structure MemStorage where
  shards : Nat → Shard
  totals : Counters
  evictShardIdx : UInt64

namespace MemStorage

def empty : MemStorage where
  shards := fun _ => .empty
  totals := {}
  evictShardIdx := 0

variable (cfg : StoreConfig) (now : Time) (s : MemStorage)

def modifyShard (i : Nat) (f : Shard → Shard) : MemStorage :=
  { s with shards := Function.update s.shards i (f (s.shards i)) }

/-- Add to the counters of a shard and of the store. -/
def addStats (i : Nat) (d : Counters) : MemStorage :=
  { s.modifyShard i fun shard => { shard with counters := shard.counters.add d } with
    totals := s.totals.add d }

def touchLRU (i : Nat) (key : GoString) : MemStorage :=
  s.modifyShard i fun shard => { shard with lru := shard.lru.touch key }

def removeFromLRU (i : Nat) (key : GoString) : MemStorage :=
  s.modifyShard i fun shard => { shard with lru := shard.lru.remove key }

/-- `shard.data.Store` -/
def store (i : Nat) (key : GoString) (compItem : CompressedItem) : MemStorage :=
  s.modifyShard i fun shard => { shard with data := shard.data.insert key compItem }

/-- `shard.data.Delete` -/
def erase (s : MemStorage) (i : Nat) (key : GoString) : MemStorage :=
  s.modifyShard i fun shard => { shard with data := shard.data.erase key }

/-- `calculateItemSize`, with the 72 bytes `unsafe.Sizeof(compressedItem{})` gives. -/
def calculateItemSize (key : GoString) (value : Bytes) : Int64 :=
  .ofNat key.length + .ofNat value.length + 16 + 24 + 72 + 64

/-- What a stored item adds to the counters. -/
def itemCounters (key : GoString) (compItem : CompressedItem) : Counters where
  keys := 1
  bytes := calculateItemSize key compItem.value
  compressed := .ofNat compItem.value.length
  original := .ofNat compItem.origSize

/-- Remove an entry with its share of the counters, as `Delete`, `evictBatchLRU` and
    `cleanExpired` do. -/
def eraseItem (i : Nat) (key : GoString) (compItem : CompressedItem) : MemStorage :=
  (s.erase i key).addStats i (itemCounters key compItem).neg

/-- `addToSyncBuffer`: the value is not copied, it is read again when the buffer is
    drained. -/
def addToSyncBuffer (i : Nat) (key : GoString) (opType : OpType) (item : Option StoredItem) :
    MemStorage :=
  let syncItem := item.map fun item => { item with key := key, value := [] }
  s.modifyShard i fun shard =>
    { shard with syncBuffer := shard.syncBuffer.push { key, opType, item := syncItem } }

/-! ### Eviction -/

/-- The loop of `evictBatchLRU`.  Every round takes one key out of the LRU list, so the
    length of the list bounds the rounds. -/
def evictLoop (i batchSize : Nat) : Nat → MemStorage → Nat → MemStorage × Nat
  | 0, s, evicted => (s, evicted)
  | rounds + 1, s, evicted =>
    if evicted < batchSize then
      match (s.shards i).lru.back with
      | none => (s, evicted)
      | some key =>
        match (s.shards i).data.lookup key with
        -- A key whose entry is gone leaves the list and does not count.
        | none => evictLoop i batchSize rounds (s.removeFromLRU i key) evicted
        | some compItem =>
          evictLoop i batchSize rounds ((s.removeFromLRU i key).eraseItem i key compItem)
            (evicted + 1)
    else (s, evicted)

/-- `evictBatchLRU`: evict from the next shard in turn; the answer is the number of
    entries removed. -/
def evictBatchLRU (batchSize : Int) : MemStorage × Nat :=
  let batchSize := if batchSize ≤ 0 then 1 else batchSize
  let batchSize := if batchSize > 100 then 100 else batchSize
  let s := { s with evictShardIdx := s.evictShardIdx + 1 }
  let i := (s.evictShardIdx &&& cfg.shardMask).toNat
  evictLoop i batchSize.toNat (s.shards i).lru.order.length s 0

/-- The loop that evicts batches while the memory in use is too large; it also ends
    when a batch evicts nothing.  The second answer is the last reading of the total. -/
def evictWhile (cfg : StoreConfig) (tooLarge : Int64 → Bool) (maxEvictions : Int) :
    Nat → MemStorage → Int64 → Int → MemStorage × Int64
  | 0, s, current, _ => (s, current)
  | rounds + 1, s, current, evicted =>
    if tooLarge current ∧ evicted < maxEvictions then
      let (s, batchEvicted) := s.evictBatchLRU cfg cfg.evictBatchSize
      if batchEvicted = 0 then (s, current)
      else evictWhile cfg tooLarge maxEvictions rounds s s.totals.bytes (evicted + batchEvicted)
    else (s, current)

/-- `checkAndEvict` -/
def checkAndEvict (itemSize : Int64) : MemStorage × Option StoreError :=
  let maxBytes := cfg.maxMemoryMB * 1024 * 1024
  let current := s.totals.bytes
  let threshold := maxBytes * cfg.evictThreshold / 100
  if current + itemSize ≤ threshold then (s, none)
  else if cfg.asyncEviction then
    if current + itemSize > maxBytes then
      -- Five entries are evicted, however large the item is.
      let (s, evicted) := s.evictBatchLRU cfg 5
      if evicted = 0 then (s, some .memoryLimit) else (s, none)
    else (s, none)
  else
    -- Without the background loop the writer evicts down to the target itself.
    let target := maxBytes * cfg.evictTarget / 100
    let maxEvictions := 200
    let (s, current) := evictWhile cfg (fun current => current + itemSize > target)
      (maxEvictions : Nat) maxEvictions s current 0
    if current + itemSize > maxBytes then (s, some .memoryLimit) else (s, none)

/-- `runAsyncEviction`, the body of the background eviction loop. -/
def runAsyncEviction : MemStorage :=
  if cfg.maxMemoryMB ≤ 0 then s
  else
    let maxBytes := cfg.maxMemoryMB * 1024 * 1024
    let current := s.totals.bytes
    let threshold := maxBytes * cfg.evictThreshold / 100
    if current ≤ threshold then s
    else
      let target := maxBytes * cfg.evictTarget / 100
      let maxEvictions := cfg.evictBatchSize * 10
      (evictWhile cfg (fun current => current > target) maxEvictions maxEvictions.toNat
        s current 0).1

/-! ### Writing -/

/-- `prepareCompressedItem`.  The slice the compressor gets does not depend on the buffer
    the pool hands out, so one of the first tier stands for it. -/
def prepareCompressedItem (item : StoredItem) : CompressedItem :=
  let block :=
    if cfg.compressionEnabled ∧ (item.value.length : Int) ≥ cfg.compressionThresh then
      compress cfg.lz4 smallCompressCap item.value cfg.compressionThresh
    else none
  { version := item.version
    expireAt := item.expireAt
    value := block.getD item.value
    compressed := block.isSome
    origSize := item.value.length }

/-- `tryStoreNewKey` -/
def tryStoreNewKey (i : Nat) (key : GoString) (compItem : CompressedItem)
    (originalItem : StoredItem) : MemStorage :=
  (((s.store i key compItem).addStats i (itemCounters key compItem)).touchLRU i key).addToSyncBuffer
    i key .set (some originalItem)

/-- `updateStatsForExistingKey` as a difference of counters; the size of the old item is
    computed without its key. -/
def replaceCounters (key : GoString) (oldItem newItem : CompressedItem) : Counters :=
  { (itemCounters key newItem).add (itemCounters [] oldItem).neg with keys := 0 }

/-- `tryUpdateExistingKey`: a version that is not newer is dropped without an error. -/
def tryUpdateExistingKey (i : Nat) (key : GoString) (existing compItem : CompressedItem)
    (originalItem : StoredItem) : MemStorage :=
  if compItem.version ≤ existing.version then s
  else
    (((s.store i key compItem).addStats i (replaceCounters key existing compItem)).touchLRU
      i key).addToSyncBuffer i key .set (some originalItem)

/-- `storeItemWithConflictResolution` -/
def storeItemWithConflictResolution (key : GoString) (compItem : CompressedItem)
    (originalItem : StoredItem) : MemStorage :=
  let i := cfg.shardIndex key
  match (s.shards i).data.lookup key with
  | none => s.tryStoreNewKey i key compItem originalItem
  | some existing => s.tryUpdateExistingKey i key existing compItem originalItem

/-- The memory check of `Set` for an item about to be stored. -/
def makeRoom (key : GoString) (compItem : CompressedItem) : MemStorage × Option StoreError :=
  if cfg.maxMemoryMB > 0 then s.checkAndEvict cfg (calculateItemSize key compItem.value)
  else (s, none)

/-- `MemStorage.Set`; the error is `none` when the method returns nil. -/
def set (key : GoString) (item : Option StoredItem) : MemStorage × Option StoreError :=
  if key = [] then (s, some .emptyKey)
  else
    match item with
    | none => (s, some .nilItem)
    | some item =>
      let compItem := prepareCompressedItem cfg item
      match s.makeRoom cfg key compItem with
      | (s, some err) => (s, some err)
      | (s, none) => (s.storeItemWithConflictResolution cfg key compItem item, none)

/-- The items `BatchSet` keeps: those with a key that are not nil. -/
def batchItems (items : List (GoString × Option StoredItem)) : List (GoString × StoredItem) :=
  items.filterMap fun entry => if entry.1 = [] then none else entry.2.map fun item => (entry.1, item)

/-- The memory check of `BatchSet`, for the sum of the sizes before compression. -/
def batchRoom (items : List (GoString × StoredItem)) : MemStorage × Option StoreError :=
  let totalSize := items.foldl (fun size entry => size + calculateItemSize entry.1 entry.2.value) 0
  if cfg.maxMemoryMB > 0 then s.checkAndEvict cfg totalSize else (s, none)

/-- `MemStorage.BatchSet`, on the entries of the map in the order they are stored in.  The
    errors of the single `Set`s are dropped. -/
def batchSet (items : List (GoString × Option StoredItem)) : MemStorage × Option StoreError :=
  if items = [] then (s, none)
  else
    match s.batchRoom cfg (batchItems items) with
    | (s, some err) => (s, some err)
    | (s, none) =>
      ((batchItems items).foldl (fun s entry => (s.set cfg entry.1 (some entry.2)).1) s, none)

/-- `MemStorage.Delete` -/
def delete (cfg : StoreConfig) (s : MemStorage) (key : GoString) (version : Int64) :
    MemStorage × Option StoreError :=
  if key = [] then (s, some .emptyKey)
  else
    let i := cfg.shardIndex key
    match (s.shards i).data.lookup key with
    | none => (s, none)
    | some compItem =>
      -- A version of 0 deletes whatever is stored.
      if version > 0 ∧ compItem.version > version then (s, some .versionMismatch)
      else (((s.eraseItem i key compItem).removeFromLRU i key).addToSyncBuffer i key .delete none,
        none)

/-! ### Reading -/

/-- The expiry test of the read methods. -/
def expiredAt (compItem : CompressedItem) : Bool :=
  compItem.expireAt ≠ zeroTime ∧ unixNano now > unixNano compItem.expireAt

/-- `decompressValue`; as for compression, any pooled buffer gives the same answer. -/
def decompressValue (compItem : CompressedItem) : Option Bytes :=
  let est : Int := compItem.origSize
  let est := if est ≤ 0 then (compItem.value.length * 2 : Int) else est
  let est := if est < compItem.value.length * 2 then (compItem.value.length * 2 : Int) else est
  decompressTo cfg.lz4 smallDecompressCap smallDecompressCap compItem.value 0 est

/-- The value bytes of an entry. -/
def valueOf (compItem : CompressedItem) : Option Bytes :=
  if compItem.compressed then decompressValue cfg compItem else some compItem.value

/-- `MemStorage.GetNoCopy` at wall-clock reading `now`.  An expired entry is removed, but
    of the counters only the number of keys is adjusted. -/
def getNoCopy (key : GoString) : MemStorage × Except StoreError StoredItem :=
  if key = [] then (s, .error .emptyKey)
  else
    let i := cfg.shardIndex key
    match (s.shards i).data.lookup key with
    | none => (s, .error .notFound)
    | some compItem =>
      if expiredAt now compItem then
        (((s.erase i key).addStats i { keys := -1 }).removeFromLRU i key, .error .expired)
      else
        match valueOf cfg compItem with
        -- The entry stays and counts as used.
        | none => (s.touchLRU i key, .error .decompressFailed)
        | some value =>
          (s.touchLRU i key, .ok
            { version := compItem.version, expireAt := compItem.expireAt, value, key := [] })

/-- `MemStorage.Get`, which differs from `GetNoCopy` only in copying the bytes. -/
def get (key : GoString) : MemStorage × Except StoreError StoredItem :=
  s.getNoCopy cfg now key

/-- The expiry test of the other methods: `now.After` compares exactly. -/
def expiredBy (compItem : CompressedItem) : Bool :=
  compItem.expireAt ≠ zeroTime ∧ now > compItem.expireAt

/-- The keys of a batch that fall to shard `i`, in their order; empty keys are left out. -/
def batchKeys (keys : List GoString) (i : Nat) : List GoString :=
  keys.filter fun key => key ≠ [] ∧ cfg.shardIndex key = i

/-- One key of a batch, on the store and the result so far. -/
def batchGetKey (out : MemStorage × GoMap StoredItem) (key : GoString) :
    MemStorage × GoMap StoredItem :=
  let (s, result) := out
  let i := cfg.shardIndex key
  match (s.shards i).data.lookup key with
  | none => (s, result)
  | some compItem =>
    if expiredBy now compItem then
      (((s.erase i key).addStats i { keys := -1 }).removeFromLRU i key, result)
    else
      match valueOf cfg compItem with
      -- The error is dropped, and the key with it.
      | none => (s.touchLRU i key, result)
      | some value =>
        (s.touchLRU i key, result.insert key
          { version := compItem.version, expireAt := compItem.expireAt, value, key := [] })

/-- `MemStorage.BatchGetNoCopy`.  The keys are grouped by shard; `visit` is the order in which
    the shards come up, which Go leaves open. -/
def batchGetNoCopy (keys : List GoString) (visit : List Nat) : MemStorage × GoMap StoredItem :=
  (visit.flatMap (batchKeys cfg keys)).foldl (batchGetKey cfg now) (s, ∅)

/-- `MemStorage.BatchGet`, which differs from `BatchGetNoCopy` only in copying the bytes. -/
def batchGet (keys : List GoString) (visit : List Nat) : MemStorage × GoMap StoredItem :=
  s.batchGetNoCopy cfg now keys visit

/-- The part of `Keys` that visits one shard.  What has expired is removed from the map, but
    neither from the list nor from the counters. -/
def keysOfShard (out : MemStorage × List GoString) (i : Nat) : MemStorage × List GoString :=
  (out.1.shards i).data.entries.foldl (fun out entry =>
    if expiredBy now entry.2 then (out.1.erase i entry.1, out.2)
    else (out.1, out.2 ++ [entry.1])) out

/-- `MemStorage.Keys` -/
def keys : MemStorage × List GoString :=
  (List.range cfg.shardCount).foldl (keysOfShard now) (s, [])

/-! ### Expiry and draining -/

/-- The part of `cleanExpired` that visits one shard; `now.After` compares exactly, unlike
    the wrapping comparison of the read methods. -/
def cleanShard (i : Nat) : MemStorage :=
  let expired := (s.shards i).data.entries.filter fun entry =>
    entry.2.expireAt ≠ zeroTime ∧ now > entry.2.expireAt
  expired.foldl (fun s entry => (s.eraseItem i entry.1 entry.2).removeFromLRU i entry.1) s

/-- `cleanExpired` -/
def cleanExpired : MemStorage :=
  (List.range cfg.shardCount).foldl (cleanShard now) s

/-- `MemStorage.Clear`.  The sync buffers are skipped to their heads. -/
def clear : MemStorage where
  shards := fun i =>
    if i < cfg.shardCount then { Shard.empty with syncBuffer := (s.shards i).syncBuffer.forget }
    else s.shards i
  totals := {}
  evictShardIdx := s.evictShardIdx

/-- What `GetSyncBuffer` does to one pending operation: an `OpSet` without a value gets
    the one the store holds for the key *now*, if there is one. -/
def fillOp (op : SyncOperation) : MemStorage × SyncOperation :=
  match op.item with
  | none => (s, op)
  | some item =>
    if item.value = [] ∧ op.opType = .set then
      match s.getNoCopy cfg now op.key with
      | (s, .ok stored) =>
        -- The version found is not compared with the version of the operation.
        if stored.value.length > 0 then
          (s, { op with item := some { item with value := stored.value } })
        else (s, op)
      -- An operation whose key is gone goes out without a value.
      | (s, .error _) => (s, op)
    else (s, op)

/-- The loop over the operations of one shard.  The clock is read once for each
    operation; `clock n` is the reading for the `n`-th operation of the drain. -/
def fillOps (cfg : StoreConfig) (clock : Nat → Time) : Nat → MemStorage → List SyncOperation →
    MemStorage × List SyncOperation
  | _, s, [] => (s, [])
  | n, s, op :: ops =>
    let (s, op) := s.fillOp cfg (clock n) op
    let (s, ops) := fillOps cfg clock (n + 1) s ops
    (s, op :: ops)

/-- Take the pending operations out of the buffer of one shard. -/
def drainShard (i : Nat) : MemStorage :=
  s.modifyShard i fun shard => { shard with syncBuffer := shard.syncBuffer.drain.2 }

/-- The loop of `GetSyncBuffer` over the shards. -/
def drainShards (cfg : StoreConfig) (clock : Nat → Time) : MemStorage → Nat → List Nat →
    MemStorage × List SyncOperation
  | s, _, [] => (s, [])
  | s, n, i :: is =>
    let pending := (s.shards i).syncBuffer.drain.1
    let (s, ops) := fillOps cfg clock n (s.drainShard i) pending
    let (s, rest) := drainShards cfg clock s (n + pending.length) is
    (s, ops ++ rest)

/-- `MemStorage.GetSyncBuffer` -/
def getSyncBuffer (clock : Nat → Time) (s : MemStorage) : MemStorage × List SyncOperation :=
  drainShards cfg clock s 0 (List.range cfg.shardCount)

end MemStorage

end GridKV
