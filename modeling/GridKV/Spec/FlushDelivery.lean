import GridKV.Model.SyncCodec
import GridKV.Spec.CompetingDrains

/-!
# Is an operation safe once a flush has taken it?

`flushInternal` empties the sync buffers and the queue before it knows where the operations
will go, and nothing puts one back: not the limit on the queue, not a target without an
address, not a push the executor refuses, not the encoder, which leaves out operations
without an item.  `keepsTaken_iff` lists what has to hold for no operation to be lost on
the way to another replica.
-/

namespace GridKV

open Go MemStorage

namespace Node

/-- What a flush takes out of the store and the queue. -/
def taken (cfg : NodeConfig) (clock : Nat → Time) (node : Node) : List SyncOperation :=
  (node.store.getSyncBuffer cfg.store clock).2 ++ node.writer.pendingOps

/-- An accepted push task for the address of `t` has the operation in the bytes it sends. -/
def HandedTo (members : List NodeInfo) (messages : List SyncMessage) (op : SyncOperation)
    (t : GoString) : Prop :=
  ∃ m ∈ messages, (addressTable members).lookup t = some m.address ∧ op ∈ m.ops ∧
    SyncOpsCodec.encodeFrame (some op) ≠ []

/-- The operation waits for a later flush. -/
def Held (cfg : NodeConfig) (node : Node) (op : SyncOperation) : Prop :=
  op ∈ pendingOps cfg.store node.store ∨ op ∈ node.writer.pendingOps

variable (cfg : NodeConfig) (clock : Nat → Time) (members : List NodeInfo)
  (accepts : GoString → Bool)

/-- After a flush, each operation it took has been handed to a push task for each other
    replica of its key, or it is held. -/
def KeepsTaken (node : Node) : Prop :=
  let out := node.flushInternal cfg clock members accepts
  ∀ op ∈ taken cfg clock node, ∀ t ∈ cfg.replicas op.key, t ≠ cfg.nodeID →
    HandedTo members out.2 op t ∨ Held cfg out.1 op

/-- There is a push task for the address of `t`: the address is known, not empty and that of
    a live member, and the executor takes the push for `t`, or for a target of the operation
    that is listed under the same address. -/
def Reachable (op : SyncOperation) (t : GoString) : Prop :=
  ∃ address, (addressTable members).lookup t = some address ∧ address ≠ [] ∧
    Gossip.isAlive members address ∧
    ∃ t', IsTarget cfg op t' ∧ (addressTable members).lookup t' = some address ∧ accepts t'

variable {cfg clock members accepts} {node : Node}

/-- A flush leaves nothing behind. -/
theorem not_held_flushInternal (op : SyncOperation) :
    ¬Held cfg (node.flushInternal cfg clock members accepts).1 op := by
  rintro (hstore | hqueue)
  · have hempty : pendingOps cfg.store (node.store.getSyncBuffer cfg.store clock).1 = [] :=
      pendingOps_getSyncBuffer
    exact nomatch hempty ▸ hstore
  · exact nomatch hqueue

theorem encodeFrame_eq_nil_iff {op : SyncOperation} :
    SyncOpsCodec.encodeFrame (some op) = [] ↔ op.item = none := by
  cases hitem : op.item with
  | none => simp [SyncOpsCodec.encodeFrame, hitem]
  | some item => simp [SyncOpsCodec.encodeFrame, hitem, Endian.leBytes]

/-- Only what the limit on the queue has left is pushed. -/
theorem handedTo_flushInternal_iff {op : SyncOperation} {t : GoString} :
    HandedTo members (node.flushInternal cfg clock members accepts).2 op t ↔
      op.item ≠ none ∧
      (op ∈ (node.store.getSyncBuffer cfg.store clock).2 ∨
        op ∈ keptOps cfg node.writer.pendingOps) ∧ Reachable cfg members accepts op t := by
  rw [← List.mem_append, Ne, ← encodeFrame_eq_nil_iff]
  constructor
  · rintro ⟨m, hm, hknown, hin, hframe⟩
    obtain ⟨hop, t', htarget, hknown', hne, halive, haccepts⟩ :=
      exists_mem_pushAll_iff.mp ⟨m, hm, rfl, hin⟩
    exact ⟨hframe, hop, m.address, hknown, hne, halive, t', htarget, hknown', haccepts⟩
  · rintro ⟨hframe, hop, address, hknown, hne, halive, t', htarget, hknown', haccepts⟩
    obtain ⟨m, hm, rfl, hin⟩ :=
      exists_mem_pushAll_iff.mpr ⟨hop, t', htarget, hknown', hne, halive, haccepts⟩
    exact ⟨m, hm, hknown, hin, hframe⟩

/-- **When a flush loses nothing.**  For every node, member table and executor: the operations
    of the buffers and of the queue are safe iff each of them that has another replica has an
    item, survives the limit on the queue, and can reach every other replica of its key. -/
theorem keepsTaken_iff :
    KeepsTaken cfg clock members accepts node ↔
      ∀ op ∈ taken cfg clock node, ∀ t ∈ cfg.replicas op.key, t ≠ cfg.nodeID →
        op.item ≠ none ∧
        (op ∈ (node.store.getSyncBuffer cfg.store clock).2 ∨
          op ∈ keptOps cfg node.writer.pendingOps) ∧ Reachable cfg members accepts op t := by
  unfold KeepsTaken
  refine forall₂_congr fun op _ => forall₃_congr fun t _ _ => ?_
  rw [or_iff_left (not_held_flushInternal op), handedTo_flushInternal_iff]

/-- A node that holds version 1 of `k`. -/
def written : Node :=
  ({} : Node).batchSetEntry DrainedNode.trio (ascii "k") (plainItem 0 "a") 1

/-- The executor is full when the push for `n3` comes: the operation goes to `n2` only, and it
    waits nowhere. -/
theorem lost_when_executor_full :
    let out := written.flushInternal DrainedNode.trio (fun _ => 0) DrainedNode.peers
      fun t => t ≠ ascii "n3"
    out.2.map (·.address) = [DrainedNode.host (ascii "n2")] ∧ out.1.writer.pendingOps = [] ∧
      pendingOps oneShard out.1.store = [] ∧
      ¬KeepsTaken DrainedNode.trio (fun _ => 0) DrainedNode.peers (fun t => t ≠ ascii "n3")
        written := by
  refine ⟨by decide, by decide, by decide, ?_⟩
  unfold KeepsTaken HandedTo Held
  decide

end Node

end GridKV
