import GridKV.Model.Writer
import GridKV.Spec.SyncDrain

/-!
# Four consumers of one buffer

`flushInternal`, `Pull`, the answer to a pull request and the checkpoint loop all drain
the same sync buffers, and an operation leaves them once.  Only the flush sends to every
replica; the others send to one node or to none.  So an operation of a key reaches all
replicas when every drain that finds it is one that reaches them all
(`sentToAll_of_drained`), and not otherwise.
-/

namespace GridKV

open Go Run MemStorage List

/-! ### What a flush sends -/

namespace HashRing

theorem nodup_collect {n : Nat} {result ids : List GoString} (h : result.Nodup) :
    (collect n result ids).Nodup := by
  induction ids generalizing result with
  | nil => exact h
  | cons id ids ih =>
    unfold collect
    split
    · split
      · exact ih h
      · rename_i hnew
        exact ih (concat_eq_append ▸ h.concat hnew)
    · exact h

theorem nodup_getN (ring : HashRing) (key : GoString) (n : Int) : (ring.getN key n).Nodup := by
  unfold getN
  split
  · exact .nil
  · exact nodup_collect .nil

end HashRing

namespace Node

variable {cfg : NodeConfig} {ops : List SyncOperation} {t : GoString}
  {targetOps : GoMap (List SyncOperation)} {op x : SyncOperation}

/-- The operation is in the batch of the target. -/
def InBatch (targetOps : GoMap (List SyncOperation)) (target : GoString) (op : SyncOperation) :
    Prop :=
  ∃ ops, targetOps.lookup target = some ops ∧ op ∈ ops

/-- An operation has to reach a target: it is another replica of its key. -/
def IsTarget (cfg : NodeConfig) (op : SyncOperation) (t : GoString) : Prop :=
  op.key ≠ [] ∧ t ∈ cfg.replicas op.key ∧ t ≠ cfg.nodeID

instance decidableIsTarget (op : SyncOperation) (t : GoString) : Decidable (IsTarget cfg op t) := by
  unfold IsTarget
  infer_instance

/-- The batch that is collected for a target. -/
def batchOf (targetOps : GoMap (List SyncOperation)) (t : GoString) : List SyncOperation :=
  (targetOps.lookup t).getD []

theorem batchOf_insert (target t : GoString) (ops : List SyncOperation) :
    batchOf (targetOps.insert target ops) t = if t = target then ops else batchOf targetOps t := by
  unfold batchOf
  split
  · subst t
    rw [AList.lookup_insert, Option.getD_some]
  · rw [AList.lookup_insert_ne ‹_›]

/-- An operation is filed once under each of its targets. -/
theorem batchOf_addToTargets {nodeID t : GoString} {op : SyncOperation} {targets : List GoString}
    (hnodup : targets.Nodup) (targetOps : GoMap (List SyncOperation)) :
    batchOf (addToTargets nodeID op targetOps targets) t =
      batchOf targetOps t ++ if t ∈ targets ∧ t ≠ nodeID then [op] else [] := by
  induction targets generalizing targetOps with
  | nil => simp [addToTargets]
  | cons target targets ih =>
    obtain ⟨hnew, hrest⟩ := nodup_cons.mp hnodup
    unfold addToTargets
    by_cases hself : target = nodeID
    · subst hself
      rw [if_neg (not_not_intro rfl), ih hrest]
      congr 2
      simp only [mem_cons, eq_iff_iff]
      tauto
    · rw [if_pos hself, ih hrest, batchOf_insert]
      by_cases ht : t = target
      · subst ht
        simp [hnew, hself, batchOf]
      · simp [ht]

theorem batchOf_fileOp (op : SyncOperation) (t : GoString) :
    batchOf (fileOp cfg targetOps op) t =
      batchOf targetOps t ++ if IsTarget cfg op t then [op] else [] := by
  unfold fileOp
  by_cases hkey : op.key = []
  · have hnone : ¬IsTarget cfg op t := fun h => h.1 hkey
    rw [if_pos hkey, if_neg hnone, append_nil]
  · have hnodup : (cfg.replicas op.key).Nodup := HashRing.nodup_getN ..
    rw [if_neg hkey, batchOf_addToTargets hnodup]
    congr 1
    exact if_congr (by simp [IsTarget, hkey]) rfl rfl

/-- The batch of a target has the operations that have to reach it, in order and each as
    often as it was taken out. -/
theorem batchOf_groupByTarget (ops : List SyncOperation) (t : GoString) :
    batchOf (groupByTarget cfg ops) t = ops.filter fun op => IsTarget cfg op t := by
  have hfold : ∀ (ops : List SyncOperation) (targetOps : GoMap (List SyncOperation)),
      batchOf (ops.foldl (fileOp cfg) targetOps) t =
        batchOf targetOps t ++ ops.filter fun op => IsTarget cfg op t := by
    intro ops
    induction ops with
    | nil => simp
    | cons op ops ih =>
      intro targetOps
      rw [foldl_cons, ih, batchOf_fileOp, filter_cons, append_assoc]
      split <;> simp [*]
  rw [groupByTarget, hfold]
  rfl

theorem inBatch_iff : InBatch targetOps t op ↔ op ∈ batchOf targetOps t := by
  unfold InBatch batchOf
  cases targetOps.lookup t <;> simp

theorem inBatch_groupByTarget_iff :
    InBatch (groupByTarget cfg ops) t op ↔ op ∈ ops ∧ IsTarget cfg op t := by
  rw [inBatch_iff, batchOf_groupByTarget, mem_filter, decide_eq_true_eq]

/-- What a flush sends: an operation goes to an address if that is the address of a target
    of it, which is not empty and that of a live member, and the executor takes the push. -/
theorem exists_mem_pushAll_iff {members : List NodeInfo} {accepts : GoString → Bool}
    {address : GoString} :
    (∃ m ∈ pushAll cfg members accepts ops, m.address = address ∧ op ∈ m.ops) ↔
      op ∈ ops ∧ ∃ t, IsTarget cfg op t ∧ (addressTable members).lookup t = some address ∧
        address ≠ [] ∧ Gossip.isAlive members address ∧ accepts t := by
  constructor
  · rintro ⟨m, hm, rfl, hop⟩
    obtain ⟨⟨t, batch⟩, hentry, hpush⟩ := mem_flatMap.mp hm
    have hlookup : (groupByTarget cfg ops).lookup t = some batch := AList.mem_lookup_iff.mpr hentry
    cases hknown : (addressTable members).lookup t with
    | none => simp [hknown] at hpush
    | some a =>
      by_cases ha : a = []
      · simp [hknown, ha] at hpush
      · by_cases hbatch : batch = []
        · simp [hknown, Gossip.push, hbatch] at hpush
        · simp only [hknown, if_neg ha, Gossip.push, if_neg hbatch, filter_cons,
            filter_nil] at hpush
          split at hpush
          · rename_i hsent
            simp only [decide_eq_true_eq] at hsent
            obtain rfl := mem_singleton.mp hpush
            obtain ⟨hmem, htarget⟩ := inBatch_groupByTarget_iff.mp ⟨batch, hlookup, hop⟩
            exact ⟨hmem, t, htarget, hknown, ha, hsent.1, hsent.2⟩
          · simp at hpush
  · rintro ⟨hop, t, htarget, hknown, haddress, halive, haccepts⟩
    obtain ⟨batch, hlookup, hbatch⟩ := inBatch_groupByTarget_iff.mpr ⟨hop, htarget⟩
    refine ⟨⟨address, batch⟩, ?_, rfl, hbatch⟩
    refine mem_flatMap.mpr ⟨⟨t, batch⟩, AList.mem_lookup_iff.mp hlookup, ?_⟩
    -- `Push` skips empty batches and members that are not alive.
    have hbatchNe : batch ≠ [] := ne_nil_of_mem hbatch
    simp [hknown, haddress, Gossip.push, hbatchNe, halive, haccepts]

end Node

/-! ### The node and its drains -/

/-- A node, the versions of one key that `BatchSet` has stored, and everything the node
    has addressed to others. -/
structure DrainedNode where
  node : Node := {}
  stored : List Int64 := []
  messages : List SyncMessage := []

namespace DrainedNode

variable {messages : List SyncMessage} {v : Int64}

/-- A call of `BatchSet` is one step for each key of its map and a last one; the four
    drains can run in between. -/
inductive Action where
  | batchSetEntry (key : GoString) (item : StoredItem) (version : Int64)
  | triggerBatch (accepts : Nat → Bool)
  | flush (clock : Nat → Time) (members : List NodeInfo) (accepts : GoString → Bool)
  | pull (clock : Nat → Time) (target : GoString)
  | pullReply (clock : Nat → Time) (members : List NodeInfo) (targetNodeID : GoString)
  | checkpoint (clock : Nat → Time)

variable (cfg : NodeConfig) (k : GoString)

/-- The version of `k` that one step of `BatchSet` stores. -/
def storedBy (node : Node) (key : GoString) (item : StoredItem) (version : Int64) : List Int64 :=
  if key = k ∧ cfg.isReplica key ∧
    setStores cfg.store node.store key (Node.versionedItem key item version)
  then [version] else []

def step (d : DrainedNode) : Action → Option DrainedNode
  | .batchSetEntry key item version =>
    some { d with
      node := d.node.batchSetEntry cfg key item version
      stored := storedBy cfg k d.node key item version ++ d.stored }
  | .triggerBatch accepts => some { d with node.writer := d.node.writer.triggerBatch cfg accepts }
  | .flush clock members accepts =>
    let out := d.node.flushInternal cfg clock members accepts
    some { d with node := out.1, messages := d.messages ++ out.2 }
  | .pull clock target =>
    let out := Gossip.pull cfg.store clock d.node.store target
    some { d with node.store := out.1, messages := d.messages ++ out.2 }
  | .pullReply clock members targetNodeID =>
    let out := Gossip.pullReply cfg.store clock members d.node.store targetNodeID
    some { d with node.store := out.1, messages := d.messages ++ out.2 }
  | .checkpoint clock =>
    some { d with node.store := (Gossip.checkpoint cfg.store clock d.node.store).1 }

/-! ### Reaching every replica -/

/-- There is room in the buffer for the operation a step queues. -/
def HasRoom (d : DrainedNode) : Action → Prop
  | .batchSetEntry key _ _ =>
    (buffer d.node.store (cfg.store.shardIndex key)).head -
      (buffer d.node.store (cfg.store.shardIndex key)).tail < syncCapacity
  | _ => True

variable (address : GoString → GoString)

/-- A drain whose messages go to every other replica of `k`.  A flush needs their
    addresses, each of a live member, and an executor that takes the pushes; the other
    drains have a single destination, or none. -/
def ReachesReplicas : Action → Prop
  | .batchSetEntry .. => True
  | .triggerBatch _ => True
  | .flush _ members accepts => ∀ t ∈ cfg.replicas k, t ≠ cfg.nodeID →
      (Node.addressTable members).lookup t = some (address t) ∧ address t ≠ [] ∧
        Gossip.isAlive members (address t) ∧ accepts t
  | .pull _ target => ∀ t ∈ cfg.replicas k, t ≠ cfg.nodeID → address t = target
  | .pullReply _ members targetNodeID => ∀ t ∈ cfg.replicas k, t ≠ cfg.nodeID →
      ∃ m, members.find? (fun m => m.nodeID = targetNodeID) = some m ∧ m.address = address t ∧
        address t ≠ []
  | .checkpoint _ => ∀ t ∈ cfg.replicas k, t = cfg.nodeID

/-- Some operation of `k` waits in a buffer. -/
def Waiting (d : DrainedNode) : Prop := ∃ op ∈ pendingOps cfg.store d.node.store, op.key = k

/-- The operation stores version `v` of `k`. -/
def IsSetOf (v : Int64) (op : SyncOperation) : Prop :=
  op.key = k ∧ ∃ item, op.item = some item ∧ item.version = v

/-- Version `v` of `k` has been in a message to every other replica. -/
def SentToAll (messages : List SyncMessage) (v : Int64) : Prop :=
  ∀ t ∈ cfg.replicas k, t ≠ cfg.nodeID →
    ∃ m ∈ messages, m.address = address t ∧ ∃ op ∈ m.ops, IsSetOf k v op

/-- The condition on a step: a drain that finds an operation of `k` reaches every other
    replica. -/
def DrainsReach (d : DrainedNode) (a : Action) : Prop :=
  Waiting cfg k d → ReachesReplicas cfg k address a

/-! ### No stored version is lost -/

/-- Every stored version of `k` waits or has been sent to all. -/
def Kept (d : DrainedNode) : Prop :=
  ∀ v ∈ d.stored, k ≠ [] ∧
    ((∃ op ∈ pendingOps cfg.store d.node.store, IsSetOf k v op) ∨
      SentToAll cfg k address d.messages v)

variable {cfg k address} {d e : DrainedNode}

theorem SentToAll.append (h : SentToAll cfg k address messages v) (more : List SyncMessage) :
    SentToAll cfg k address (messages ++ more) v := by
  intro t ht hne
  obtain ⟨m, hm, hsent⟩ := h t ht hne
  exact ⟨m, mem_append_left _ hm, hsent⟩

theorem SentToAll.prepend (h : SentToAll cfg k address messages v) (before : List SyncMessage) :
    SentToAll cfg k address (before ++ messages) v := by
  intro t ht hne
  obtain ⟨m, hm, hsent⟩ := h t ht hne
  exact ⟨m, mem_append_right _ hm, hsent⟩

/-- A drain hands out the operation of every version that waits. -/
theorem exists_isSetOf_getSyncBuffer (clock : Nat → Time) {s : MemStorage}
    (h : ∃ op ∈ pendingOps cfg.store s, IsSetOf k v op) :
    ∃ op ∈ (s.getSyncBuffer cfg.store clock).2, IsSetOf k v op := by
  obtain ⟨op, hop, hkey, item, hitem, hversion⟩ := h
  obtain ⟨op', hop', hheader⟩ := exists_mem_getSyncBuffer clock hop
  obtain ⟨item', hitem', hversion'⟩ := exists_item_of_header_eq hheader.symm hitem
  exact ⟨op', hop', (key_eq_of_header_eq hheader).trans hkey, item', hitem',
    hversion'.trans hversion⟩

/-- A drain keeps every version if its messages carry the drained operations of `k` to
    all, provided there are any. -/
theorem Kept.of_drain (h : Kept cfg k address d) (clock : Nat → Time) {node : Node}
    (hsent : Waiting cfg k d → k ≠ [] → ∀ v,
      (∃ op ∈ (d.node.store.getSyncBuffer cfg.store clock).2, IsSetOf k v op) →
      SentToAll cfg k address messages v) :
    Kept cfg k address { d with node, messages := d.messages ++ messages } := by
  intro v hv
  obtain ⟨hk, hkept⟩ := h v hv
  refine ⟨hk, .inr ?_⟩
  cases hkept with
  | inl hpending =>
    have hwaiting : Waiting cfg k d := by
      obtain ⟨op, hop, hkey, -⟩ := hpending
      exact ⟨op, hop, hkey⟩
    exact (hsent hwaiting hk v (exists_isSetOf_getSyncBuffer clock hpending)).prepend _
  | inr hall => exact hall.append _

theorem Kept.batchSetEntry (h : Kept cfg k address d) {key : GoString} {item : StoredItem}
    {version : Int64} (hroom : HasRoom cfg d (.batchSetEntry key item version)) :
    Kept cfg k address { d with
      node := d.node.batchSetEntry cfg key item version
      stored := storedBy cfg k d.node key item version ++ d.stored } := by
  by_cases hstores : cfg.isReplica key ∧
      setStores cfg.store d.node.store key (Node.versionedItem key item version)
  · obtain ⟨hreplica, hset⟩ := hstores
    have hreplicas : cfg.replicas key ≠ [] := by
      intro hnil
      simp [NodeConfig.isReplica, hnil] at hreplica
    have hnode : (d.node.batchSetEntry cfg key item version).store =
        (d.node.store.set cfg.store key (some (Node.versionedItem key item version))).1 := by
      simp [Node.batchSetEntry, hreplicas, hreplica]
    have hremoves := removes_makeRoom cfg.store d.node.store key
      (prepareCompressedItem cfg.store (Node.versionedItem key item version))
    have hinstalls := (set_of_setStores hset).2
    -- What was pending still is, and the new operation is pending too.
    have hpending : ∀ op, op ∈ pendingOps cfg.store d.node.store ∨
        op = { key, opType := .set, item := some { Node.versionedItem key item version with
          value := [] } } →
        op ∈ pendingOps cfg.store (d.node.batchSetEntry cfg key item version).store := by
      intro op hop
      rw [hnode]
      refine hinstalls.mem_pendingOps ?_ (by rwa [hremoves.pendingOps_eq])
      simp only [hremoves.buffer_eq]
      exact hroom
    intro v hv
    rw [mem_append] at hv
    cases hv with
    | inl hnew =>
      unfold storedBy at hnew
      split at hnew
      · rename_i hcond
        obtain rfl := mem_singleton.mp hnew
        simp only [setStores, decide_eq_true_eq] at hset
        exact ⟨hcond.1 ▸ hset.1, .inl ⟨_, hpending _ (.inr rfl), hcond.1, _, rfl, rfl⟩⟩
      · cases hnew
    | inr hold =>
      obtain ⟨hk, hkept⟩ := h v hold
      refine ⟨hk, hkept.imp_left fun hpend => ?_⟩
      obtain ⟨op, hop, hset⟩ := hpend
      exact ⟨op, hpending op (.inl hop), hset⟩
  · -- Nothing is stored, so nothing new has to be sent and the buffers stay.
    have hnone : storedBy cfg k d.node key item version = [] := if_neg fun h => hstores h.2
    have hpending : pendingOps cfg.store (d.node.batchSetEntry cfg key item version).store =
        pendingOps cfg.store d.node.store := by
      simp only [Node.batchSetEntry]
      split
      · rfl
      · split
        · rename_i hreplica
          exact (removes_set_of_not_setStores fun hset => hstores ⟨hreplica, hset⟩).pendingOps_eq
        · rfl
    intro v hv
    rw [hnone, nil_append] at hv
    obtain ⟨hk, hkept⟩ := h v hv
    exact ⟨hk, hkept.imp_left fun hold => hpending ▸ hold⟩

theorem Kept.step {a : Action} (h : Kept cfg k address d) (hroom : HasRoom cfg d a)
    (hreach : DrainsReach cfg k address d a) (hstep : d.step cfg k a = some e) :
    Kept cfg k address e := by
  cases a with
  | batchSetEntry key item version =>
    cases hstep
    exact h.batchSetEntry hroom
  | triggerBatch accepts =>
    cases hstep
    exact h
  | flush clock members accepts =>
    cases hstep
    refine h.of_drain clock fun hwaiting hk v ⟨op, hop, hset⟩ t ht hne => ?_
    -- The condition on the step is that every other replica can be reached.
    obtain ⟨hknown, haddress, halive, haccepts⟩ := hreach hwaiting t ht hne
    have htarget : Node.IsTarget cfg op t := ⟨hset.1 ▸ hk, hset.1 ▸ ht, hne⟩
    obtain ⟨m, hm, hto, hin⟩ := Node.exists_mem_pushAll_iff.mpr
      ⟨mem_append_left (Node.keptOps cfg d.node.writer.pendingOps) hop,
        t, htarget, hknown, haddress, halive, haccepts⟩
    exact ⟨m, hm, hto, op, hin, hset⟩
  | pull clock target =>
    cases hstep
    refine h.of_drain clock fun hwaiting _ v ⟨op, hop, hset⟩ t ht hne => ?_
    have hfound : (d.node.store.getSyncBuffer cfg.store clock).2 ≠ [] := ne_nil_of_mem hop
    refine ⟨⟨target, _⟩, ?_, (hreach hwaiting t ht hne).symm, op, hop, hset⟩
    simp [Gossip.pull, hfound]
  | pullReply clock members targetNodeID =>
    cases hstep
    refine h.of_drain clock fun hwaiting _ v ⟨op, hop, hset⟩ t ht hne => ?_
    have hfound : (d.node.store.getSyncBuffer cfg.store clock).2 ≠ [] := ne_nil_of_mem hop
    obtain ⟨m, hm, haddress, hknown⟩ := hreach hwaiting t ht hne
    refine ⟨⟨address t, _⟩, ?_, rfl, op, hop, hset⟩
    simp [Gossip.pullReply, hfound, hm, haddress, hknown]
  | checkpoint clock =>
    cases hstep
    have hkept : Kept cfg k address { d with
        node.store := (Gossip.checkpoint cfg.store clock d.node.store).1
        messages := d.messages ++ [] } :=
      h.of_drain clock fun hwaiting _ v _ t ht hne => absurd (hreach hwaiting t ht) hne
    rwa [append_nil] at hkept

/-- In every run without overflow whose drains reach the other replicas whenever they
    find an operation of `k`, each version of `k` that `BatchSet` stored has been in a
    message to every other replica once none waits. -/
theorem sentToAll_of_drained {as : List Action}
    (hrun : GuardedRun (step cfg k)
      (fun d a => HasRoom cfg d a ∧ DrainsReach cfg k address d a) {} as d)
    (hdrained : ¬ Waiting cfg k d) : ∀ v ∈ d.stored, SentToAll cfg k address d.messages v := by
  have hkept : Kept cfg k address d :=
    hrun.invariant (fun _ _ _ h hguard hstep => h.step hguard.1 hguard.2 hstep) fun _ hv => nomatch hv
  intro v hv
  refine (hkept v hv).2.resolve_left fun ⟨op, hop, hset⟩ => ?_
  exact hdrained ⟨op, hop, hset.1⟩

/-- The first of three nodes, each of them a replica of every key. -/
def trio : NodeConfig where
  nodeID := ascii "n1"
  store := oneShard
  ring :=
    { hashHi := fun _ => 0
      nodes := [⟨0, ascii "n1"⟩, ⟨1, ascii "n2"⟩, ⟨2, ascii "n3"⟩]
      sorted := by decide }

/-- Where the nodes listen. -/
def host (nodeID : GoString) : GoString := ascii "host-" ++ nodeID

/-- The member table with both peers alive. -/
def peers : List NodeInfo :=
  [⟨ascii "n2", host (ascii "n2"), NodeState.alive, 1, 0⟩,
    ⟨ascii "n3", host (ascii "n3"), NodeState.alive, 1, 0⟩]

/-- One batch and one flush. -/
theorem sentToAll_after_flush :
    ∃ d : DrainedNode, d.stored = [1] ∧ ∀ v ∈ d.stored, SentToAll trio (ascii "k") host d.messages v := by
  have hrun : GuardedRun (step trio (ascii "k"))
      (fun d a => HasRoom trio d a ∧ DrainsReach trio (ascii "k") host d a) {}
      [.batchSetEntry (ascii "k") (plainItem 0 "a") 1, .flush (fun _ => 0) peers fun _ => true] _ :=
    .cons ⟨by unfold HasRoom; decide, fun _ => trivial⟩ rfl
      (.cons ⟨trivial, fun _ => by unfold ReachesReplicas; decide⟩ rfl (.nil _))
  exact ⟨_, by decide, sentToAll_of_drained hrun (by unfold Waiting; decide)⟩

/-- One batch, and a pull that drains the buffer before the flush: the operation goes to
    the node pulled from and the third node never hears of it. -/
theorem not_sentToAll_after_pull :
    ¬ ∀ (as : List Action) (d : DrainedNode),
      GuardedRun (step trio (ascii "k")) (HasRoom trio) {} as d →
      pendingOps trio.store d.node.store = [] →
      ∀ v ∈ d.stored, SentToAll trio (ascii "k") host d.messages v := by
  intro hall
  have hrun : GuardedRun (step trio (ascii "k")) (HasRoom trio) {}
      [.batchSetEntry (ascii "k") (plainItem 0 "a") 1, .pull (fun _ => 0) (host (ascii "n2")),
        .flush (fun _ => 0) peers fun _ => true] _ :=
    .cons (by unfold HasRoom; decide) rfl (.cons trivial rfl (.cons trivial rfl (.nil _)))
  obtain ⟨m, hm, hto, -⟩ := hall _ _ hrun (by decide) 1 (by decide)
    (ascii "n3") (by decide) (by decide)
  revert m
  decide

end DrainedNode

end GridKV
