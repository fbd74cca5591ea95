import GridKV.Model.Gossip
import GridKV.Model.Hlc

/-!
# The writer

Translation of `internal/cluster/writer.go`.  The wall clock enters through the readings
`hlcToInt64(hlc.Now())` that each call takes, and the executor through its answers to
`Do`.  A flush the executor has accepted waits in `tasks`; the flush timer only decides
when `flushAsync` is tried again and is left out, and so are the hot cache and the log.
-/

namespace GridKV

open Go

/-- The tasks `flushAsync` hands to the executor. -/
inductive FlushTask where
  | flush
  | retry
  deriving DecidableEq, Repr

/-- The mutable part of `writer`. -/
structure Writer where
  lastVersions : GoMap Int64 := ∅
  pendingOps : List SyncOperation := []
  batchCount : Int64 := 0
  flushPending : Bool := false
  tasks : List FlushTask := []

/-- The errors of the write methods, with the key they name. -/
inductive WriteError where
  | noReplicas (key : GoString)
  | storeFailed (key : GoString) (err : StoreError)
  deriving DecidableEq, Repr

/-- A node: its store and its writer. -/
structure Node where
  store : MemStorage := .empty
  writer : Writer := {}

namespace Writer

/-- `flushAsync`; `accepts` answers the first and the second `Do`. -/
def flushAsync (w : Writer) (accepts : Nat → Bool) : Writer :=
  if accepts 0 then { w with tasks := w.tasks ++ [.flush] }
  else if accepts 1 then { w with tasks := w.tasks ++ [.retry] }
  else w

/-- `triggerBatch` -/
def triggerBatch (cfg : NodeConfig) (w : Writer) (accepts : Nat → Bool) : Writer :=
  let w := { w with batchCount := w.batchCount + 1 }
  if w.batchCount.toInt ≥ cfg.batchThreshold then
    if w.flushPending then w else flushAsync { w with flushPending := true } accepts
  else if w.pendingOps.length > cfg.batchThreshold * 10 then
    if w.flushPending then w else flushAsync { w with flushPending := true } accepts
  else w

/-- `maxVersions` -/
def maxVersions : Nat := 10000

/-- The size limit of `lastVersions`: above it, `range` visits the keys in the order
    `visit` and the first of them are forgotten. -/
def cleanup (versions : GoMap Int64) (visit : List GoString) : GoMap Int64 :=
  if versions.entries.length > maxVersions then
    let toRemove := versions.entries.length - maxVersions + maxVersions / 5
    (visit.take toRemove).foldl (fun versions key => versions.erase key) versions
  else versions

/-- The version `Set` gives an item: the clock reading, or one more than the last version
    it gave the key. -/
def nextVersion (w : Writer) (key : GoString) (reading : Int64) : Int64 :=
  match w.lastVersions.lookup key with
  | some lastVersion => if reading ≤ lastVersion then lastVersion + 1 else reading
  | none => reading

/-- The first part of `Set`: choose the version and remember it. -/
def trackVersion (w : Writer) (key : GoString) (reading : Int64) (visit : List GoString) :
    Writer :=
  { w with
    lastVersions := cleanup (w.lastVersions.insert key (w.nextVersion key reading)) visit }

end Writer

namespace Node

variable (cfg : NodeConfig) (members : List NodeInfo) (node : Node)

/-- `storeOrQueue` -/
def storeOrQueue (key : GoString) (item : StoredItem) (opType : OpType) (accepts : Nat → Bool) :
    Node × Option WriteError :=
  let targets := cfg.replicas key
  if targets = [] then (node, some (.noReplicas key))
  else
    -- Stored here whether or not the node is one of the replicas.
    match node.store.set cfg.store key (some item) with
    | (store, some err) => ({ node with store }, some (.storeFailed key err))
    | (store, none) =>
      -- One operation for each other replica; none of them says which replica it is for.
      let queued := (targets.filter fun target => target ≠ cfg.nodeID).map fun _ =>
        ({ key, opType, item := some item } : SyncOperation)
      let writer := { node.writer with pendingOps := node.writer.pendingOps ++ queued }
      ({ store, writer := writer.triggerBatch cfg accepts }, none)

/-- The call of `triggerBatch` with which the write methods end; the executor has
    answered twice before. -/
def finish (accepts : Nat → Bool) : Node × Option WriteError → Node × Option WriteError
  | (node, some err) => (node, some err)
  | (node, none) =>
    ({ node with writer := node.writer.triggerBatch cfg fun i => accepts (i + 2) }, none)

/-- The item `writer.Set` stores: the caller's value and expiry under a new version. -/
def versionedItem (key : GoString) (item : StoredItem) (version : Int64) : StoredItem where
  version := version
  expireAt := item.expireAt
  value := item.value
  key := key

/-- `writer.Set` at clock reading `reading`. -/
def set (cfg : NodeConfig) (node : Node) (key : GoString) (item : StoredItem) (reading : Int64)
    (visit : List GoString) (accepts : Nat → Bool) : Node × Option WriteError :=
  let version := node.writer.nextVersion key reading
  let node := { node with writer := node.writer.trackVersion key reading visit }
  finish cfg accepts (node.storeOrQueue cfg key (versionedItem key item version) .set accepts)

/-- The version `writer.Delete` gives its tombstone. -/
def tombstoneVersion (version reading : Int64) : Int64 :=
  let newVersion := if reading ≤ version then version + 1 else reading
  if newVersion ≤ 0 then 1 else newVersion

/-- `writer.Delete` -/
def delete (cfg : NodeConfig) (node : Node) (key : GoString) (version reading : Int64)
    (accepts : Nat → Bool) : Node × Option WriteError :=
  let tombstone : StoredItem :=
    { version := tombstoneVersion version reading, expireAt := zeroTime, value := [], key }
  finish cfg accepts (node.storeOrQueue cfg key tombstone .delete accepts)

/-- The body of the loop of `writer.BatchSet`: errors of the store are ignored. -/
def batchSetEntry (key : GoString) (item : StoredItem) (version : Int64) : Node :=
  let newItem := versionedItem key item version
  if cfg.replicas key = [] then node
  else if cfg.isReplica key then { node with store := (node.store.set cfg.store key (some newItem)).1 }
  else
    { node with writer := { node.writer with
      pendingOps := node.writer.pendingOps ++ [{ key, opType := .set, item := some newItem }] } }

/-- `writer.BatchSet`, on the entries of the map in the order they are visited in. -/
def batchSet (items : List (GoString × StoredItem)) (reading : Int64) (accepts : Nat → Bool) :
    Node :=
  if items = [] then node
  else
    let node := items.foldl (fun node kv => node.batchSetEntry cfg kv.1 kv.2 reading) node
    { node with writer := node.writer.triggerBatch cfg accepts }

/-! ### Flushing -/

/-- The limit on queued operations: only the most recent ones are kept. -/
def keptOps (pendingOps : List SyncOperation) : List SyncOperation :=
  let maxPendingOps := (cfg.batchThreshold * 200).toNat
  pendingOps.drop (pendingOps.length - maxPendingOps)

/-- Append an operation to the batch of each of its targets. -/
def addToTargets (nodeID : GoString) (op : SyncOperation) (targetOps : GoMap (List SyncOperation)) :
    List GoString → GoMap (List SyncOperation)
  | [] => targetOps
  | target :: targets =>
    if target ≠ nodeID then
      addToTargets nodeID op
        (targetOps.insert target ((targetOps.lookup target).getD [] ++ [op])) targets
    else addToTargets nodeID op targetOps targets

/-- File an operation under the other replicas of its key. -/
def fileOp (targetOps : GoMap (List SyncOperation)) (op : SyncOperation) :
    GoMap (List SyncOperation) :=
  if op.key = [] then targetOps
  else addToTargets cfg.nodeID op targetOps (cfg.replicas op.key)

/-- `targetOpsMap`: the operations by the replicas they have to reach. -/
def groupByTarget (ops : List SyncOperation) : GoMap (List SyncOperation) :=
  ops.foldl (fileOp cfg) ∅

/-- `nodeIDToAddr` -/
def addressTable : GoMap GoString :=
  members.foldl (fun table m => table.insert m.nodeID m.address) ∅

/-- The pushes of a flush, one for each target with a known address; `accepts` has the answer
    of the executor to the push for each target. -/
def pushAll (accepts : GoString → Bool) (ops : List SyncOperation) : List SyncMessage :=
  -- A target that is not in the member table is skipped, and its operations are gone.
  (groupByTarget cfg ops).entries.flatMap fun entry =>
    match (addressTable members).lookup entry.1 with
    | none => []
    | some address =>
      if address = [] then [] else Gossip.push members (fun _ => accepts entry.1) entry.2 [address]

/-- `flushInternal`: drain the sync buffer and the queue, and push to every target. -/
def flushInternal (clock : Nat → Time) (members : List NodeInfo) (accepts : GoString → Bool)
    (node : Node) : Node × List SyncMessage :=
  let (store, drained) := node.store.getSyncBuffer cfg.store clock
  let ops := drained ++ keptOps cfg node.writer.pendingOps
  let writer := { node.writer with pendingOps := [], batchCount := 0 }
  ({ store, writer }, pushAll cfg members accepts ops)

end Node

end GridKV
