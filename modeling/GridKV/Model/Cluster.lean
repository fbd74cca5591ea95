import GridKV.Model.Reader
import GridKV.Model.Writer

/-!
# How a cluster is wired

Translation of the part of `New` in `internal/cluster/cluster.go` that passes its
configuration to the writer, to gossip and to the reader, with the defaults of their
constructors, and of `Cluster.Get` and `Cluster.Delete`.  The remote reads of `reader.Get` come
here with the time they take: they share one context, whose deadline no read renews.
-/

namespace GridKV

open Go

/-- `cluster.Config`, as far as writer, gossip and reader depend on it. -/
structure Config where
  nodeID : GoString
  store : StoreConfig
  ring : HashRing
  replicaCount : Int
  batchThreshold : Int

/-- The default that `newWriter`, `newGossip` and `newReader` all set for `ReplicaCount`. -/
def defaultReplicaCount (replicaCount : Int) : Int := if replicaCount ≤ 0 then 3 else replicaCount

/-- The configuration `newWriter` works with. -/
def newWriter (cfg : NodeConfig) : NodeConfig :=
  { cfg with
    replicaCount := defaultReplicaCount cfg.replicaCount
    batchThreshold := if cfg.batchThreshold ≤ 0 then 200 else cfg.batchThreshold }

/-- The configuration `newGossip` works with. -/
def newGossip (cfg : NodeConfig) : NodeConfig :=
  { cfg with replicaCount := defaultReplicaCount cfg.replicaCount }

/-- The configuration `newReader` works with. -/
def newReader (cfg : ReaderConfig) : ReaderConfig :=
  { cfg with replicaCount := defaultReplicaCount cfg.replicaCount }

namespace Config

def writer (cfg : Config) : NodeConfig :=
  newWriter
    { nodeID := cfg.nodeID
      store := cfg.store
      ring := cfg.ring
      replicaCount := cfg.replicaCount
      batchThreshold := cfg.batchThreshold }

def gossip (cfg : Config) : NodeConfig :=
  newGossip
    { nodeID := cfg.nodeID
      store := cfg.store
      ring := cfg.ring
      replicaCount := cfg.replicaCount }

/-- The literal of type `readerConfig` in `New` has no `ReplicaCount`, so that is 0. -/
def reader (cfg : Config) : ReaderConfig :=
  newReader
    { nodeID := cfg.nodeID
      store := cfg.store
      ring := cfg.ring
      replicaCount := 0 }

end Config

/-! ### Reads against the clock -/

/-- What `getFunc` does for each node: how many nanoseconds it takes, if it ever returns, and
    what it returns then, as for `Reader.get`. -/
structure RemoteReads where
  delay : GoString → Option Nat
  fetch : GoString → Option (Option StoredItem)

namespace Reader

/-- The time the remote reads of a `Get` have together, when `remaining` is left to the
    context of the caller; `none` for a context without a deadline. -/
def readTimeout (remaining : Option Nat) : Nat :=
  let timeout := 5 * 1000000000
  match remaining with
  | none => timeout
  | some remaining => if remaining > timeout then timeout else remaining

/-- The loop of `Get` over the live replicas with `left` nanoseconds to go.  A read that is
    not back by then is given up, and nothing is asked after that. -/
def firstLiveWithin (reads : RemoteReads) : Nat → List GoString → Option StoredItem
  | _, [] => none
  | left, target :: targets =>
    match reads.delay target with
    | none => firstLiveWithin reads 0 targets
    | some delay =>
      if delay < left then
        match reads.fetch target with
        | some (some item) =>
          if ¬ item.isTombstone ∧ item.value.length ≠ 0 then some item
          else firstLiveWithin reads (left - delay) targets
        | _ => firstLiveWithin reads (left - delay) targets
      else firstLiveWithin reads 0 targets

/-- `reader.Get`, like `Reader.get`, with the remote reads against the clock. -/
def getWithin (cfg : ReaderConfig) (now : Time) (s : MemStorage) (alive : GoString → Bool)
    (reads : RemoteReads) (remaining : Option Nat) (key : GoString) :
    MemStorage × Except StoreError (Option StoredItem) :=
  match s.get cfg.store now key with
  | (s, .ok item) => (s, .ok (some item))
  | (s, .error err) =>
    if err ≠ .notFound ∧ err ≠ .expired then (s, .error err)
    else
      let targets := cfg.ring.getN key cfg.replicaCount
      (s, .ok (firstLiveWithin reads (readTimeout remaining)
        (targets.filter fun target => target ≠ cfg.nodeID ∧ alive target)))

end Reader

/-- `Cluster.Get` with nothing in the hot cache; a nil slice is the empty list. -/
def Config.get (cfg : Config) (now : Time) (s : MemStorage) (alive : GoString → Bool)
    (reads : RemoteReads) (remaining : Option Nat) (key : GoString) :
    MemStorage × Except StoreError Bytes :=
  match Reader.getWithin cfg.reader now s alive reads remaining key with
  | (s, .error err) => (s, .error err)
  | (s, .ok none) => (s, .ok [])
  | (s, .ok (some item)) => (s, .ok item.value)

/-- `Cluster.Delete` when the writer's clock reads `reading`; an error of `store.Get` counts as
    no item. -/
def Config.delete (cfg : Config) (now : Time) (node : Node) (key : GoString) (reading : Int64)
    (accepts : Nat → Bool) : Node × Option WriteError :=
  match node.store.get cfg.store now key with
  | (store, .ok item) => { node with store }.delete cfg.writer key item.version reading accepts
  | (store, .error _) => { node with store }.delete cfg.writer key 0 reading accepts

end GridKV
