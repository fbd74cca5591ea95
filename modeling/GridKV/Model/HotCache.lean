import GridKV.Model.Reader
import GridKV.Model.Writer

/-!
# The hot cache

Translation of the cache in `internal/utils/cache/ttl_cache.go`, which the reader fills and
the writer empties, and of `reader.Get` and `writer.storeOrQueue` cut at the operations
that touch the cache or the store.  Every method of the cache holds the lock of a shard
while it works; the one that takes the lock twice, `Get`, only moves the entry it returns
to the front or removes it the second time.

The frequency sketch that helps to choose a victim is a parameter, and the cache is not
closed while it is used.
-/

namespace GridKV

open Go

/-- `entry` -/
structure CacheEntry where
  value : StoredItem
  /-- In nanoseconds; 0 for none. -/
  expireAt : Int64
  deriving DecidableEq, Repr

/-- `shard`: the entries by key, and the keys from `head` to `tail`. -/
structure CacheShard where
  items : GoMap CacheEntry := ∅
  order : List GoString := []

/-- What a cache is built with. -/
structure CacheConfig where
  /-- The halves of `xxh3.HashString128`. -/
  hashLo : GoString → UInt64
  hashHi : GoString → UInt64
  shardMask : UInt32
  maxSize : Nat

/-- The index `getShard` computes. -/
def CacheConfig.shardIndex (cfg : CacheConfig) (key : GoString) : Nat :=
  (((cfg.hashLo key <<< 1) ^^^ cfg.hashHi key).toUInt32 &&& cfg.shardMask).toNat

namespace CacheShard

/-- `moveToFront`, or `addToFront` for a new key. -/
def moveToFront (s : CacheShard) (key : GoString) : CacheShard :=
  { s with order := key :: s.order.erase key }

/-- Take an entry out of the map and the list. -/
def remove (s : CacheShard) (key : GoString) : CacheShard where
  items := s.items.erase key
  order := s.order.erase key

/-- The loop that looks for an entry used less often than `newFreq`, from the tail on and
    not at the head. -/
def rareKey (estimate : GoString → Nat) (newFreq : Nat) : List GoString → Option GoString
  | [] => none
  | key :: rest =>
    if estimate key < newFreq then some key
    else
      match rest with
      | [] => none
      | [_] => none
      | rest => rareKey estimate newFreq rest

/-- The entry that makes room for a new key: the oldest one, unless it is used more often
    than the new key and a rarer one is found. -/
def victim (estimate : GoString → Nat) (s : CacheShard) (key : GoString) : Option GoString :=
  s.order.getLast?.map fun oldest =>
    if estimate oldest > estimate key then
      (rareKey estimate (estimate key) s.order.reverse).getD oldest
    else oldest

/-- `Get` in the shard of the key. -/
def get (now : Time) (s : CacheShard) (key : GoString) : CacheShard × Option StoredItem :=
  match s.items.lookup key with
  | none => (s, none)
  | some e =>
    if e.expireAt > 0 ∧ unixNano now > e.expireAt then (s.remove key, none)
    else (s.moveToFront key, some e.value)

/-- `Set` in the shard of the key. -/
def set (maxSize : Nat) (estimate : GoString → Nat) (now ttl : Time) (s : CacheShard)
    (key : GoString) (value : StoredItem) : CacheShard :=
  let expireAt := if ttl > 0 then unixNano (now + ttl) else 0
  match s.items.lookup key with
  | some _ => { s with items := s.items.insert key ⟨value, expireAt⟩ }.moveToFront key
  | none =>
    let s :=
      if maxSize > 0 ∧ s.items.entries.length ≥ maxSize then
        match s.victim estimate key with
        | some oldest => s.remove oldest
        | none => s
      else s
    { s with items := s.items.insert key ⟨value, expireAt⟩ }.moveToFront key

end CacheShard

/-- `Cache` -/
structure HotCache where
  shards : Nat → CacheShard := fun _ => {}

namespace HotCache

/-- `Cache.Get` -/
def get (cfg : CacheConfig) (now : Time) (c : HotCache) (key : GoString) :
    HotCache × Option StoredItem :=
  if key = [] then (c, none)
  else
    let i := cfg.shardIndex key
    let (shard, found) := (c.shards i).get now key
    ({ c with shards := Function.update c.shards i shard }, found)

/-- `Cache.Set` -/
def set (cfg : CacheConfig) (estimate : GoString → Nat) (now ttl : Time) (c : HotCache)
    (key : GoString) (value : StoredItem) : HotCache :=
  if key = [] then c
  else
    let i := cfg.shardIndex key
    { c with shards :=
        Function.update c.shards i ((c.shards i).set cfg.maxSize estimate now ttl key value) }

/-- `Cache.Delete` -/
def delete (cfg : CacheConfig) (c : HotCache) (key : GoString) : HotCache :=
  if key = [] then c
  else
    let i := cfg.shardIndex key
    { c with shards := Function.update c.shards i ((c.shards i).remove key) }

end HotCache

/-! ### The calls that use it -/

/-- A store and the cache in front of it. -/
structure CachedStore where
  store : MemStorage := .empty
  cache : HotCache := {}

/-- What reader and writer of a node are built with. -/
structure CachedConfig extends ReaderConfig where
  cache : CacheConfig
  cacheTTL : Time

/-- What a call of `reader.Get` meets: its readings of the clock and the other nodes. -/
structure GetCall where
  cacheNow : Time
  now : Time
  alive : GoString → Bool
  /-- As for `Reader.get`. -/
  fetch : GoString → Option (Option StoredItem)
  fillNow : Time
  estimate : GoString → Nat

/-- Where a `reader.Get` stands. -/
inductive GetPhase where
  /-- At the lookup in the cache. -/
  | start
  /-- Not cached: at the lookup in the store. -/
  | lookup
  /-- Not stored: at the remote reads. -/
  | fetch
  /-- A replica has answered: about to fill the cache. -/
  | fill (item : StoredItem)
  | returned (result : Except StoreError (Option StoredItem))

/-- The next step of `reader.Get`. -/
def getStep (cfg : CachedConfig) (key : GoString) (call : GetCall) (s : CachedStore) :
    GetPhase → Option (CachedStore × GetPhase)
  | .start =>
    match s.cache.get cfg.cache call.cacheNow key with
    | (cache, some item) => some ({ s with cache }, .returned (.ok (some item)))
    | (cache, none) => some ({ s with cache }, .lookup)
  | .lookup =>
    match s.store.get cfg.store call.now key with
    | (store, .ok item) => some ({ s with store }, .returned (.ok (some item)))
    | (store, .error err) =>
      if err ≠ .notFound ∧ err ≠ .expired then some ({ s with store }, .returned (.error err))
      else some ({ s with store }, .fetch)
  | .fetch =>
    let targets := cfg.ring.getN key cfg.replicaCount
    match Reader.firstLive call.fetch
      (targets.filter fun target => target ≠ cfg.nodeID ∧ call.alive target) with
    | none => some (s, .returned (.ok none))
    | some item => some (s, .fill item)
  | .fill item =>
    some ({ s with
      cache := s.cache.set cfg.cache call.estimate call.fillNow cfg.cacheTTL key item },
      .returned (.ok (some item)))
  | .returned _ => none

/-- Where a `storeOrQueue` stands. -/
inductive StorePhase where
  | start
  /-- Stored: about to empty the cache. -/
  | uncache
  | returned (err : Option WriteError)
  deriving DecidableEq, Repr

/-- The next step of `storeOrQueue`; the queue is not looked at. -/
def storeStep (cfg : CachedConfig) (key : GoString) (item : StoredItem) (s : CachedStore) :
    StorePhase → Option (CachedStore × StorePhase)
  | .start =>
    if cfg.ring.getN key cfg.replicaCount = [] then some (s, .returned (some (.noReplicas key)))
    else
      match s.store.set cfg.store key (some item) with
      | (store, some err) => some ({ s with store }, .returned (some (.storeFailed key err)))
      | (store, none) => some ({ s with store }, .uncache)
  | .uncache => some ({ s with cache := s.cache.delete cfg.cache key }, .returned none)
  | .returned _ => none

end GridKV
