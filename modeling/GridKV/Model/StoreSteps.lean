import GridKV.Model.MemStorage

/-!
# The methods of the store, one atomic step at a time

Translation of the methods of `internal/mem_storage/mem_storage.go` that touch one key,
cut at their atomic operations: `Load`, `LoadOrStore`, `CompareAndSwap`, `Delete` and
`LoadAndDelete` of the `sync.Map`, the atomic counters, and the sections under the locks
of the LRU list and the sync buffer.  Between two of its steps a goroutine is in a phase,
and the others may run.

The map holds pointers, and `CompareAndSwap` compares them, not what they point to.  An
entry is allocated once, by the `Set` call that prepares it, so the call identifies the
pointer.
-/

namespace GridKV

open Go

/-- The allocation an entry of the map points to: the one that was there at the start, or
    that of a `Set` call. -/
inductive Pointer (ι : Type) where
  | initial
  | call (i : ι)
  deriving DecidableEq, Repr

/-- What a `Load` returns. -/
structure Loaded (ι : Type) where
  pointer : Pointer ι
  item : CompressedItem

/-- The store as the goroutines working on one key share it. -/
structure SharedStore (ι : Type) where
  store : MemStorage
  /-- Where the entry of the key points, while there is one. -/
  pointer : Pointer ι := .initial
  setCount : Int64 := 0
  /-- How often an item has been put into the map under the key; the code does not count
      this. -/
  installs : Nat := 0

namespace SharedStore

variable {ι : Type} (cfg : StoreConfig) (key : GoString)

/-- `shard.data.Load` -/
def load (s : SharedStore ι) : Option (Loaded ι) :=
  ((s.store.shards (cfg.shardIndex key)).data.lookup key).map fun item => ⟨s.pointer, item⟩

/-- Put the item of a call into the map. -/
def install (s : SharedStore ι) (i : ι) (compItem : CompressedItem) : SharedStore ι :=
  { s with
    store := s.store.store (cfg.shardIndex key) key compItem
    pointer := .call i
    installs := s.installs + 1 }

end SharedStore

/-! ### `Set` -/

/-- Where a `Set` call stands. -/
inductive SetPhase (ι : Type) where
  /-- Before the checks of the arguments and of the memory. -/
  | start
  /-- At the `Load` of `storeItemWithConflictResolution`. -/
  | load
  /-- The key was absent: at the `LoadOrStore` of `tryStoreNewKey`. -/
  | insert
  /-- The entry was at least as new: about to count the call. -/
  | refused
  /-- The entry was older: at the second `Load` of `tryUpdateExistingKey`. -/
  | recheck (existing : Loaded ι)
  /-- The version was still the same: at the `CompareAndSwap`. -/
  | swap (existing : Loaded ι)
  /-- The item is in the map, in place of another one or not: about to update the
      statistics. -/
  | stats (replaced : Option CompressedItem)
  | touch
  | publish
  | failed (err : StoreError)
  | done

/-- The next atomic step of `Set(key, item)`, called by goroutine `i`. -/
def setStep {ι : Type} [DecidableEq ι] (cfg : StoreConfig) (key : GoString) (item : StoredItem)
    (i : ι) (s : SharedStore ι) : SetPhase ι → Option (SharedStore ι × SetPhase ι)
  | .start =>
    if key = [] then some (s, .failed .emptyKey)
    else
      match s.store.makeRoom cfg key (MemStorage.prepareCompressedItem cfg item) with
      | (store, some err) => some ({ s with store }, .failed err)
      | (store, none) => some ({ s with store }, .load)
  | .load =>
    match s.load cfg key with
    | none => some (s, .insert)
    | some existing =>
      if item.version ≤ existing.item.version then some (s, .refused)
      else some (s, .recheck existing)
  | .insert =>
    match s.load cfg key with
    | none => some (s.install cfg key i (MemStorage.prepareCompressedItem cfg item), .stats none)
    -- Another goroutine was faster.
    | some _ => some (s, .load)
  | .refused => some ({ s with setCount := s.setCount + 1 }, .done)
  | .recheck existing =>
    match s.load cfg key with
    | none => some (s, .load)
    | some current =>
      if current.item.version ≠ existing.item.version then some (s, .load)
      else some (s, .swap existing)
  | .swap existing =>
    match s.load cfg key with
    | none => some (s, .load)
    | some current =>
      if current.pointer = existing.pointer then
        some (s.install cfg key i (MemStorage.prepareCompressedItem cfg item),
          .stats (some existing.item))
      else some (s, .load)
  | .stats replaced =>
    let compItem := MemStorage.prepareCompressedItem cfg item
    let change := match replaced with
      | none => MemStorage.itemCounters key compItem
      | some oldItem => MemStorage.replaceCounters key oldItem compItem
    some ({ s with
      store := s.store.addStats (cfg.shardIndex key) change
      setCount := s.setCount + 1 }, .touch)
  | .touch => some ({ s with store := s.store.touchLRU (cfg.shardIndex key) key }, .publish)
  | .publish =>
    some ({ s with
      store := s.store.addToSyncBuffer (cfg.shardIndex key) key .set (some item) }, .done)
  | .failed _ => none
  | .done => none

/-! ### The methods that remove what has expired -/

/-- The methods that look at the expiry of an entry. -/
inductive ExpiringCall where
  | get
  | getNoCopy
  | batchGet
  | batchGetNoCopy
  | cleanExpired
  deriving DecidableEq, Repr

/-- The expiry test: `Get` and `GetNoCopy` compare nanoseconds, the others times. -/
def ExpiringCall.expired (call : ExpiringCall) (now : Time) (compItem : CompressedItem) : Bool :=
  match call with
  | .get | .getNoCopy => MemStorage.expiredAt now compItem
  | .batchGet | .batchGetNoCopy | .cleanExpired =>
    compItem.expireAt ≠ zeroTime ∧ now > compItem.expireAt

/-- Where such a call stands with the key. -/
inductive ExpiryPhase where
  /-- At the `Load` of the key, or before `Range` has come to it. -/
  | load
  /-- The entry was expired: at the `Delete` or `LoadAndDelete`. -/
  | delete
  /-- About to take the entry out of the counters. -/
  | uncount (change : Counters)
  | unlink
  | touch
  | done

/-- The next atomic step of the call on the key, with `now` the time it compares with. -/
def expiryStep {ι : Type} (cfg : StoreConfig) (key : GoString) (call : ExpiringCall) (now : Time)
    (s : SharedStore ι) : ExpiryPhase → Option (SharedStore ι × ExpiryPhase)
  | .load =>
    match s.load cfg key with
    | none => some (s, .done)
    | some found =>
      if call.expired now found.item then some (s, .delete)
      -- `cleanExpired` leaves a live entry alone, the others count it as used.
      else if call = .cleanExpired then some (s, .done)
      else some (s, .touch)
  | .delete =>
    match call with
    | .cleanExpired =>
      -- `LoadAndDelete` removes what is there by now and takes its size.
      match s.load cfg key with
      | none => some (s, .done)
      | some current =>
        some ({ s with store := s.store.erase (cfg.shardIndex key) key },
          .uncount (MemStorage.itemCounters key current.item).neg)
    | .get | .getNoCopy | .batchGet | .batchGetNoCopy =>
      some ({ s with store := s.store.erase (cfg.shardIndex key) key }, .uncount { keys := -1 })
  | .uncount change =>
    some ({ s with store := s.store.addStats (cfg.shardIndex key) change }, .unlink)
  | .unlink => some ({ s with store := s.store.removeFromLRU (cfg.shardIndex key) key }, .done)
  | .touch => some ({ s with store := s.store.touchLRU (cfg.shardIndex key) key }, .done)
  | .done => none

end GridKV
