import GridKV.Model.HashRing
import GridKV.Model.MemStorage
import GridKV.Model.MemberCodec

/-!
# Gossip

Translation of `internal/cluster/gossip.go` and of the checkpoint drain of
`internal/cluster/entropy.go`, on sync operations before they are serialised.  What
leaves the node is returned as a list of messages.  `pushToTarget` runs on the executor
and retries; an accepted push counts as one message here.
-/

namespace GridKV

open Go

/-- What a node's components are built with. -/
structure NodeConfig where
  nodeID : GoString
  store : StoreConfig
  ring : HashRing
  replicaCount : Int := 3
  batchThreshold : Int := 200

namespace NodeConfig

/-- The replicas of a key. -/
def replicas (cfg : NodeConfig) (key : GoString) : List GoString :=
  cfg.ring.getN key cfg.replicaCount

/-- `isLocalReplica` of the writer and `getReplica` of the gossip component. -/
def isReplica (cfg : NodeConfig) (key : GoString) : Bool := cfg.nodeID ∈ cfg.replicas key

end NodeConfig

/-- A batch of operations on its way to an address. -/
structure SyncMessage where
  address : GoString
  ops : List SyncOperation
  deriving DecidableEq, Repr

namespace Gossip

variable (cfg : StoreConfig) (clock : Nat → Time) (members : List NodeInfo) (s : MemStorage)

/-- The test `Push` makes before sending to an address. -/
def isAlive (address : GoString) : Bool :=
  members.any fun m => m.address = address ∧ m.state = NodeState.alive

/-- `Push` with the answers of the executor. -/
def push (accepts : GoString → Bool) (ops : List SyncOperation) (targets : List GoString) :
    List SyncMessage :=
  if ops = [] then []
  else
    (targets.filter fun target => isAlive members target ∧ accepts target).map fun target =>
      { address := target, ops }

/-- `Pull`, which pushes what is pending to the node it pulls from. -/
def pull (target : GoString) : MemStorage × List SyncMessage :=
  let (s, localOps) := s.getSyncBuffer cfg clock
  if localOps = [] then (s, []) else (s, [{ address := target, ops := localOps }])

/-- The task with which `HandleMessage` answers a pull request. -/
def pullReply (targetNodeID : GoString) : MemStorage × List SyncMessage :=
  let (s, localOps) := s.getSyncBuffer cfg clock
  if localOps = [] then (s, [])
  else
    match members.find? fun m => m.nodeID = targetNodeID with
    -- The buffer is empty by now, although there is nobody to send it to.
    | none => (s, [])
    | some m => if m.address = [] then (s, []) else (s, [{ address := m.address, ops := localOps }])

/-- One round of `checkpointLoop`: the operations go to the checkpoint file. -/
def checkpoint : MemStorage × List SyncOperation :=
  s.getSyncBuffer cfg clock

/-- The body of the loop of `applyOps`, for an operation with an item. -/
def applyOp (cfg : NodeConfig) (now : Time) (s : MemStorage) (key : GoString) (item : StoredItem) :
    MemStorage × Option StoreError :=
  if cfg.isReplica key then
    let (s, existing) := s.getNoCopy cfg.store now key
    match existing with
    | .ok existing =>
      if existing.version ≥ item.version then (s, none) else s.set cfg.store key (some item)
    -- Any error of the read counts as a missing key.
    | .error _ => s.set cfg.store key (some item)
  else (s, none)

/-- `applyOps`; the clock is read once for each operation.  The first error of the store
    ends the loop. -/
def applyOps (cfg : NodeConfig) (clock : Nat → Time) : Nat → MemStorage →
    List (Option SyncOperation) → MemStorage × Option StoreError
  | _, s, [] => (s, none)
  | n, s, none :: ops => applyOps cfg clock (n + 1) s ops
  | n, s, some op :: ops =>
    match op.item with
    | none => applyOps cfg clock (n + 1) s ops
    | some item =>
      match applyOp cfg (clock n) s op.key item with
      | (s, some err) => (s, some err)
      | (s, none) => applyOps cfg clock (n + 1) s ops

end Gossip

end GridKV
