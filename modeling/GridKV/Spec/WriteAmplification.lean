import GridKV.Spec.CompetingDrains
import GridKV.Spec.WriterEffects

/-!
# How many copies of a write are sent?

A write that returns nil queues one operation for each other replica of its key, and the
store, if it takes the item, queues one of its own.  `flushInternal` sends every one of them
to every other replica.  `exactlyOnce_iff` says what that comes to: within the limits of the
queues, each replica gets each write once if no key that was written has a second one and
the store took none of the writes.
-/

namespace GridKV

open Go Run MemStorage List

/-- What a write and its operations have in common: the key and the version. -/
def SyncOperation.stamp (op : SyncOperation) : GoString × Option Int64 :=
  (op.key, op.item.map (·.version))

/-! ### The sync buffers -/

namespace MemStorage

variable {cfg : StoreConfig} {s t : MemStorage}

theorem stamp_eq_of_header_eq {op op' : SyncOperation} (h : header op = header op') :
    op.stamp = op'.stamp := by
  have hitem : op.item.map (·.version) = op'.item.map (·.version) := by
    have hheaders := congrArg (fun op : SyncOperation => op.item.map (·.version)) h
    simpa [header, Function.comp_def] using hheaders
  rw [SyncOperation.stamp, SyncOperation.stamp, key_eq_of_header_eq h, hitem]

/-- A drain fills in values and leaves the stamps as they are. -/
theorem map_stamp_getSyncBuffer (clock : Nat → Time) :
    (s.getSyncBuffer cfg clock).2.map (·.stamp) = (pendingOps cfg s).map (·.stamp) := by
  have hall : List.Forall₂ (FilledFrom cfg clock fun _ => True) (pendingOps cfg s)
      (s.getSyncBuffer cfg clock).2 :=
    forall₂_getSyncBuffer (fun _ _ _ _ => trivial) (fun _ _ _ => trivial) trivial
  generalize pendingOps cfg s = pending, (s.getSyncBuffer cfg clock).2 = drained at hall ⊢
  induction hall with
  | nil => rfl
  | cons hfilled _ ih =>
    obtain ⟨n, u, -, rfl⟩ := hfilled
    rw [map_cons, map_cons, ih, stamp_eq_of_header_eq (header_fillOp ..)]

/-- Appending to one list of many appends to their concatenation, up to order. -/
private theorem flatMap_perm_append {α : Type} {is : List Nat} (hnodup : is.Nodup) {j : Nat}
    (hj : j ∈ is) {f g : Nat → List α} {a : α} (hself : g j = f j ++ [a])
    (hother : ∀ i, i ≠ j → g i = f i) : (is.flatMap g).Perm (is.flatMap f ++ [a]) := by
  induction is with
  | nil => exact nomatch hj
  | cons i is ih =>
    obtain ⟨hi, hrest⟩ := nodup_cons.mp hnodup
    rw [flatMap_cons, flatMap_cons]
    by_cases hij : i = j
    · subst hij
      have hsame : is.flatMap g = is.flatMap f :=
        flatMap_congr fun i' hi' => hother i' fun h => hi (h ▸ hi')
      rw [hself, hsame, append_assoc, append_assoc]
      exact (perm_append_comm).append_left (f i)
    · rw [hother i hij, append_assoc]
      exact (ih hrest ((mem_cons.mp hj).resolve_left (Ne.symm hij))).append_left (f i)

/-- With room in the buffer, storing an item queues one operation. -/
theorem Installs.pendingOps_perm {key : GoString} {item : StoredItem}
    (h : Installs cfg s t key item)
    (hroom : (buffer s (cfg.shardIndex key)).head - (buffer s (cfg.shardIndex key)).tail <
      syncCapacity) :
    (pendingOps cfg t).Perm (pendingOps cfg s ++
      [{ key, opType := .set, item := some { item with key := key, value := [] } }]) := by
  refine flatMap_perm_append nodup_range (mem_range.mpr (shardIndex_lt cfg key)) ?_ ?_
  · rw [h.buffer_eq, if_pos rfl, RingBuffer.toList_push_of_lt _ _ hroom]
  · intro i hi
    rw [h.buffer_eq, if_neg hi]

end MemStorage

/-! ### The batch of a replica -/

namespace Node

variable {cfg : NodeConfig} (targetOps : GoMap (List SyncOperation))

/-- Everything that is sent to an address. -/
def pushedTo (messages : List SyncMessage) (address : GoString) : List SyncOperation :=
  messages.flatMap fun m => if m.address = address then m.ops else []

/-- Some key has `t` as another replica. -/
def IsPeer (cfg : NodeConfig) (t : GoString) : Prop :=
  t ≠ cfg.nodeID ∧ ∃ key, t ∈ cfg.replicas key

/-- Every peer is alive and known under an address of its own. -/
structure AllAlive (cfg : NodeConfig) (members : List NodeInfo) (address : GoString → GoString) :
    Prop where
  lookup_eq : ∀ t, IsPeer cfg t → (addressTable members).lookup t = some (address t)
  ne_nil : ∀ t, IsPeer cfg t → address t ≠ []
  isAlive : ∀ t, IsPeer cfg t → Gossip.isAlive members (address t)
  injective : ∀ t t', IsPeer cfg t → IsPeer cfg t' → address t = address t' → t = t'

/-- The entries of a map under one key. -/
theorem flatMap_entries (t : GoString) :
    (targetOps.entries.flatMap fun entry => if entry.1 = t then entry.2 else []) =
      batchOf targetOps t := by
  have hlist : ∀ entries : List (Sigma fun _ : GoString => List SyncOperation),
      entries.NodupKeys →
      (entries.flatMap fun entry => if entry.1 = t then entry.2 else []) =
        (entries.dlookup t).getD [] := by
    intro entries
    induction entries with
    | nil => exact fun _ => rfl
    | cons entry entries ih =>
      obtain ⟨t', ops⟩ := entry
      intro hnodup
      obtain ⟨hnew, hrest⟩ := nodupKeys_cons.mp hnodup
      rw [flatMap_cons, ih hrest]
      by_cases ht : t' = t
      · subst ht
        have hgone : entries.dlookup t' = none := dlookup_eq_none.mpr hnew
        simp [dlookup_cons_eq, hgone]
      · rw [dlookup_cons_ne _ _ (Ne.symm ht), if_neg ht, nil_append]
  exact hlist _ targetOps.nodupKeys

/-- When every peer is alive, a flush sends each of them its batch. -/
theorem pushedTo_pushAll {members : List NodeInfo} {address : GoString → GoString}
    (halive : AllAlive cfg members address) (ops : List SyncOperation) {t : GoString}
    (ht : IsPeer cfg t) :
    pushedTo (pushAll cfg members (fun _ => true) ops) (address t) =
      ops.filter fun op => IsTarget cfg op t := by
  rw [← batchOf_groupByTarget, ← flatMap_entries, pushedTo, pushAll, flatMap_assoc]
  refine flatMap_congr fun entry hentry => ?_
  obtain ⟨t', batch⟩ := entry
  by_cases hbatch : batch = []
  · -- `Push` sends no empty batch.
    subst hbatch
    split <;> simp [Gossip.push]
  · have hlookup : (groupByTarget cfg ops).lookup t' = some batch := AList.mem_lookup_iff.mpr hentry
    have hpeer : IsPeer cfg t' := by
      obtain ⟨op, hop⟩ := exists_mem_of_ne_nil batch hbatch
      obtain ⟨-, -, hmem, hne⟩ := inBatch_groupByTarget_iff.mp ⟨batch, hlookup, hop⟩
      exact ⟨hne, op.key, hmem⟩
    have hsame : address t' = address t ↔ t' = t :=
      ⟨halive.injective t' t hpeer ht, congrArg address⟩
    simp [halive.lookup_eq t' hpeer, halive.ne_nil t' hpeer, Gossip.push, hbatch,
      halive.isAlive t' hpeer, hsame]

end Node

/-! ### Writes -/

/-- A write that returned nil, and whether the store took its item. -/
structure Written where
  key : GoString
  version : Int64
  taken : Bool

def Written.stamp (w : Written) : GoString × Option Int64 := (w.key, some w.version)

/-- A node and the writes it has accepted. -/
structure WritingNode where
  node : Node := {}
  writes : List Written := []

namespace WritingNode

variable {α β : Type} {l : List α} {p : α → Bool} {n : α → Nat}

/-- The calls of the writer. -/
inductive Call where
  | set (key : GoString) (item : StoredItem) (reading : Int64) (visit : List GoString)
      (accepts : Nat → Bool)
  | delete (key : GoString) (version reading : Int64) (accepts : Nat → Bool)

namespace Call

def key : Call → GoString
  | .set key .. => key
  | .delete key .. => key

/-- The item a call stores. -/
def item (node : Node) : Call → StoredItem
  | .set key item reading _ _ =>
    Node.versionedItem key item (node.writer.nextVersion key reading)
  | .delete key version reading _ =>
    { version := Node.tombstoneVersion version reading, expireAt := zeroTime, value := [], key }

def run (cfg : NodeConfig) (node : Node) : Call → Node × Option WriteError
  | .set key item reading visit accepts => node.set cfg key item reading visit accepts
  | .delete key version reading accepts => node.delete cfg key version reading accepts

end Call

variable (cfg : NodeConfig)

def step (w : WritingNode) (call : Call) : Option WritingNode :=
  let out := call.run cfg w.node
  let item := call.item w.node
  some
    { node := out.1
      writes := w.writes ++
        if out.2 = none then
          [⟨call.key, item.version, setStores cfg.store w.node.store call.key item⟩]
        else [] }

/-- There is room in the buffer for the operation of a call. -/
def HasRoom (w : WritingNode) (call : Call) : Prop :=
  (buffer w.node.store (cfg.store.shardIndex call.key)).head -
    (buffer w.node.store (cfg.store.shardIndex call.key)).tail < syncCapacity

/-- The other replicas of a key. -/
def others (key : GoString) : List GoString :=
  (cfg.replicas key).filter fun target => target ≠ cfg.nodeID

/-- Nothing waits in the sync buffers and in the queue. -/
def Idle (node : Node) : Prop :=
  pendingOps cfg.store node.store = [] ∧ node.writer.pendingOps = []

/-- The queue is within its limit. -/
def WithinLimit (node : Node) : Prop :=
  node.writer.pendingOps.length ≤ (cfg.batchThreshold * 200).toNat

/-- In what a flush sends to each peer, the operations of the writes to its keys are there
    once each, and no others. -/
def ExactlyOnce (clock : Nat → Time) (members : List NodeInfo) (address : GoString → GoString)
    (w : WritingNode) : Prop :=
  ∀ t, Node.IsPeer cfg t →
    ((Node.pushedTo (w.node.flushInternal cfg clock members fun _ => true).2 (address t)).map
      (·.stamp)).Perm
      ((w.writes.filter fun write => t ∈ cfg.replicas write.key).map (·.stamp))

/-- The operations that wait are those of the writes: one for each other replica in the
    queue, and one in the buffers if the store took the item. -/
structure Tracks (w : WritingNode) : Prop where
  key_ne_nil : ∀ write ∈ w.writes, write.key ≠ []
  queued : w.node.writer.pendingOps.map (·.stamp) =
    w.writes.flatMap fun write => replicate (others cfg write.key).length write.stamp
  buffered : ((pendingOps cfg.store w.node.store).map (·.stamp)).Perm
    ((w.writes.filter (·.taken)).map (·.stamp))

variable {cfg} {w w' : WritingNode} {call : Call}

/-- What a write does to the store and the queue: it fails and at most entries go, or it
    queues one operation for each other replica. -/
theorem storeOrQueue_cases (cfg : NodeConfig) (node : Node) (key : GoString) (item : StoredItem)
    (opType : OpType) (accepts : Nat → Bool) :
    let out := node.storeOrQueue cfg key item opType accepts
    out.2 ≠ none ∧ out.1.writer.pendingOps = node.writer.pendingOps ∧
        Removes cfg.store node.store out.1.store ∨
      out.2 = none ∧ key ≠ [] ∧
        out.1.writer.pendingOps = node.writer.pendingOps ++
          (others cfg key).map (fun _ => { key, opType, item := some item }) ∧
        out.1.store = (node.store.set cfg.store key (some item)).1 := by
  simp only [Node.storeOrQueue]
  by_cases hreplicas : cfg.replicas key = []
  · rw [if_pos hreplicas]
    exact .inl ⟨Option.some_ne_none _, rfl, .refl ..⟩
  · rw [if_neg hreplicas]
    cases hset : node.store.set cfg.store key (some item) with
    | mk store err =>
      cases err with
      | some err =>
        have hnot : ¬setStores cfg.store node.store key item := by
          intro hstores
          have hnone := (set_of_setStores hstores).1
          rw [hset] at hnone
          cases hnone
        have hremoves := removes_set_of_not_setStores hnot
        rw [hset] at hremoves
        exact .inl ⟨Option.some_ne_none _, rfl, hremoves⟩
      | none =>
        have hkey : key ≠ [] := (set_snd_eq_none_iff.mp (congrArg Prod.snd hset)).1
        exact .inr ⟨rfl, hkey, Writer.pendingOps_triggerBatch .., rfl⟩

/-- Both calls end in `storeOrQueue`, on a node with the same store and queue. -/
theorem exists_run_eq (cfg : NodeConfig) (node : Node) (call : Call) :
    ∃ start : Node, start.store = node.store ∧
      start.writer.pendingOps = node.writer.pendingOps ∧
      ∃ opType accepts, call.run cfg node = Node.finish cfg accepts
        (start.storeOrQueue cfg call.key (call.item node) opType accepts) := by
  cases call with
  | set key item reading visit accepts =>
    exact ⟨{ node with writer := node.writer.trackVersion key reading visit }, rfl, rfl, .set,
      accepts, rfl⟩
  | delete key version reading accepts => exact ⟨node, rfl, rfl, .delete, accepts, rfl⟩

/-- A call that returns nil leaves its operations behind. -/
theorem Tracks.accepted (h : Tracks cfg w) (hroom : HasRoom cfg w call) (hkey : call.key ≠ [])
    {node : Node} {opType : OpType}
    (hqueue : node.writer.pendingOps = w.node.writer.pendingOps ++
      (others cfg call.key).map fun _ =>
        { key := call.key, opType, item := some (call.item w.node) })
    (hstore : node.store =
      (w.node.store.set cfg.store call.key (some (call.item w.node))).1) :
    Tracks cfg
      { node
        writes := w.writes ++ [⟨call.key, (call.item w.node).version,
          setStores cfg.store w.node.store call.key (call.item w.node)⟩] } where
  key_ne_nil := by
    intro write hwrite
    obtain hold | hnew := mem_append.mp hwrite
    · exact h.key_ne_nil write hold
    · obtain rfl := mem_singleton.mp hnew
      exact hkey
  queued := by
    rw [hqueue, map_append, h.queued, flatMap_append, flatMap_singleton,
      map_map]
    congr 1
    exact map_const' ..
  buffered := by
    rw [filter_append, map_append]
    by_cases hstores : setStores cfg.store w.node.store call.key (call.item w.node)
    · -- Room is made first, which leaves the buffers alone.
      have hremoves := removes_makeRoom cfg.store w.node.store call.key
        (prepareCompressedItem cfg.store (call.item w.node))
      have hpushed := (set_of_setStores hstores).2.pendingOps_perm
        (by rw [hremoves.buffer_eq]; exact hroom)
      rw [hremoves.pendingOps_eq, ← hstore] at hpushed
      refine (hpushed.map _).trans ?_
      rw [map_append]
      refine (h.buffered.append_right _).trans (.of_eq ?_)
      simp [hstores, SyncOperation.stamp, Written.stamp]
    · have hremoves := removes_set_of_not_setStores hstores
      rw [hstore, hremoves.pendingOps_eq]
      simpa [hstores] using h.buffered

theorem Tracks.step (h : Tracks cfg w) (hroom : HasRoom cfg w call)
    (hstep : step cfg w call = some w') : Tracks cfg w' := by
  obtain ⟨start, hsame, hsame', opType, accepts, hrun⟩ := exists_run_eq cfg w.node call
  have hcases := storeOrQueue_cases cfg start call.key (call.item w.node) opType accepts
  rw [hsame, hsame'] at hcases
  cases hstep
  rw [hrun, Node.finish_snd]
  obtain ⟨hfailed, hqueue, hremoves⟩ | ⟨hnil, hkey, hqueue, hstore⟩ := hcases
  · -- Nothing is queued, and nothing is expected.
    rw [if_neg hfailed, append_nil]
    refine ⟨h.key_ne_nil, ?_, ?_⟩
    · rw [Node.pendingOps_finish, hqueue]
      exact h.queued
    · rw [Node.store_finish, hremoves.pendingOps_eq]
      exact h.buffered
  · rw [if_pos hnil]
    exact h.accepted hroom hkey (by rw [Node.pendingOps_finish, hqueue])
      (by rw [Node.store_finish, hstore])

/-! ### Counting copies -/

/-- Extra copies change the length. -/
private theorem copies_of_length_eq (hpos : ∀ a ∈ l, 1 ≤ n a)
    (h : (l.filter p).length + (l.map n).sum ≤ l.length) : ∀ a ∈ l, n a = 1 ∧ p a = false := by
  have hle : ∀ l : List α, (∀ a ∈ l, 1 ≤ n a) → l.length ≤ (l.map n).sum := by
    intro l
    induction l with
    | nil => simp
    | cons a l ih =>
      intro hpos
      obtain ⟨ha, hl⟩ := forall_mem_cons.mp hpos
      have := ih hl
      simp only [length_cons, map_cons, sum_cons]
      omega
  induction l with
  | nil => simp
  | cons a l ih =>
    obtain ⟨ha, hl⟩ := forall_mem_cons.mp hpos
    have hrest := hle l hl
    cases hp : p a with
    | true =>
      simp only [filter_cons, hp, if_true, length_cons, map_cons,
        sum_cons] at h
      omega
    | false =>
      simp only [filter_cons, hp, length_cons, map_cons, sum_cons] at h
      refine forall_mem_cons.mpr ⟨⟨by simp at h; omega, hp⟩, ih hl ?_⟩
      simp at h
      omega

/-- A list with `n a` copies of each `f a` and one more where `p` holds has each `f a` once
    only if there are no further copies. -/
private theorem perm_copies_iff {f : α → β} (hpos : ∀ a ∈ l, 1 ≤ n a) :
    ((l.filter p).map f ++ l.flatMap fun a => replicate (n a) (f a)).Perm (l.map f) ↔
      ∀ a ∈ l, n a = 1 ∧ p a = false := by
  constructor
  · intro h
    have hlength := h.length_eq
    simp only [length_append, length_map, length_flatMap,
      length_replicate] at hlength
    exact copies_of_length_eq hpos hlength.le
  · intro h
    have hnone : l.filter p = [] := by
      simpa [filter_eq_nil_iff] using fun a ha => (h a ha).2
    have honce : (l.flatMap fun a => replicate (n a) (f a)) = l.flatMap fun a => [f a] :=
      flatMap_congr fun a ha => by rw [(h a ha).1]; rfl
    rw [hnone, honce, ← map_eq_flatMap]
    exact .rfl

private theorem flatMap_filter_eq (l : List α) (p : α → Bool) (f : α → List β) :
    (l.filter p).flatMap f = l.flatMap fun a => if p a then f a else [] := by
  induction l with
  | nil => rfl
  | cons a l ih =>
    rw [filter_cons, flatMap_cons, ← ih]
    split <;> simp

variable {members : List NodeInfo} {address : GoString → GoString}

/-- What a flush sends to a peer, up to order: the operations of each write to its keys, one
    for each other replica and one more if the store took the item. -/
theorem Tracks.perm_pushedTo (h : Tracks cfg w) (clock : Nat → Time)
    (hlimit : WithinLimit cfg w.node)
    (halive : Node.AllAlive cfg members address) {t : GoString} (ht : Node.IsPeer cfg t) :
    let mine := w.writes.filter fun write => t ∈ cfg.replicas write.key
    ((Node.pushedTo (w.node.flushInternal cfg clock members fun _ => true).2 (address t)).map
      (·.stamp)).Perm
      ((mine.filter (·.taken)).map (·.stamp) ++
        mine.flatMap fun write => replicate (others cfg write.key).length write.stamp) := by
  intro mine
  let reaches (x : GoString × Option Int64) : Bool := x.1 ≠ [] ∧ t ∈ cfg.replicas x.1
  have hreaches : ∀ write ∈ w.writes,
      reaches write.stamp = decide (t ∈ cfg.replicas write.key) := by
    intro write hwrite
    simp [reaches, Written.stamp, h.key_ne_nil write hwrite]
  have hkept : Node.keptOps cfg w.node.writer.pendingOps = w.node.writer.pendingOps := by
    rw [Node.keptOps, Nat.sub_eq_zero_of_le hlimit, drop_zero]
  have hpushed : (Node.pushedTo (w.node.flushInternal cfg clock members fun _ => true).2
      (address t)).map (·.stamp) =
        ((pendingOps cfg.store w.node.store).map (·.stamp) ++
          w.node.writer.pendingOps.map (·.stamp)).filter reaches := by
    rw [Node.flushInternal, Node.pushedTo_pushAll halive _ ht, hkept,
      ← map_stamp_getSyncBuffer clock, ← map_append, filter_map]
    congr 1
    refine filter_congr fun op _ => ?_
    simp [reaches, SyncOperation.stamp, Node.IsTarget, ht.1]
  rw [hpushed, filter_append, h.queued]
  refine List.Perm.append ?_ (.of_eq ?_)
  · refine (h.buffered.filter _).trans (.of_eq ?_)
    rw [filter_map, filter_comm]
    exact congrArg (fun writes => (writes.filter (·.taken)).map (·.stamp))
      (filter_congr hreaches)
  · rw [filter_flatMap]
    refine (flatMap_congr fun write hwrite => ?_).trans (flatMap_filter_eq ..).symm
    rw [filter_replicate, hreaches write hwrite]

/-- **When a flush does not multiply writes.**  After any calls that stay within the limits, on
    a node that had nothing to send, each peer gets each write once iff every accepted write
    to a key with other replicas has exactly one of them and was not taken by the store. -/
theorem exactlyOnce_iff {start : Node} {calls : List Call} {clock : Nat → Time}
    (hidle : Idle cfg start)
    (hrun : GuardedRun (step cfg) (HasRoom cfg) { node := start } calls w)
    (hlimit : WithinLimit cfg w.node) (halive : Node.AllAlive cfg members address) :
    ExactlyOnce cfg clock members address w ↔
      ∀ write ∈ w.writes, others cfg write.key ≠ [] →
        (others cfg write.key).length = 1 ∧ write.taken = false := by
  have htracks : Tracks cfg w :=
    hrun.invariant (fun _ _ _ h hroom hstep => h.step hroom hstep)
      ⟨fun _ h => (nomatch h), by rw [hidle.2]; rfl, by rw [hidle.1]; exact .rfl⟩
  -- A write concerns a peer if the peer is among the other replicas of its key.
  have hpos : ∀ t, Node.IsPeer cfg t →
      ∀ write ∈ w.writes.filter (fun write => t ∈ cfg.replicas write.key),
        1 ≤ (others cfg write.key).length := by
    intro t ht write hwrite
    have hmem : t ∈ others cfg write.key :=
      mem_filter.mpr ⟨by simpa using (mem_filter.mp hwrite).2, by simpa using ht.1⟩
    exact length_pos_of_mem hmem
  have hpeer : ∀ t, Node.IsPeer cfg t → (_ ↔ _) := fun t ht =>
    ((htracks.perm_pushedTo clock hlimit halive ht).congr_left _).trans
      (perm_copies_iff (hpos t ht))
  unfold ExactlyOnce
  rw [forall₂_congr hpeer]
  constructor
  · intro h write hwrite hne
    obtain ⟨t, ht⟩ := exists_mem_of_ne_nil _ hne
    obtain ⟨hmem, hother⟩ := mem_filter.mp ht
    exact h t ⟨by simpa using hother, write.key, hmem⟩ write
      (mem_filter.mpr ⟨hwrite, by simpa using hmem⟩)
  · intro h t ht write hwrite
    exact h write (mem_filter.mp hwrite).1
      (length_pos_iff.mp (hpos t ht write hwrite))

/-- The first of three nodes, with the given number of replicas. -/
def trio (replicaCount : Int) : NodeConfig := { DrainedNode.trio with replicaCount }

theorem allAlive_trio {replicaCount : Int} (h : replicaCount = 2 ∨ replicaCount = 3) :
    Node.AllAlive (trio replicaCount) DrainedNode.peers DrainedNode.host := by
  have hpeer : ∀ t, Node.IsPeer (trio replicaCount) t → t = ascii "n2" ∨ t = ascii "n3" := by
    rintro t ⟨hne, key, hmem⟩
    have hthree : t ∈ [ascii "n1", ascii "n2", ascii "n3"] := by
      obtain rfl | rfl := h
      · have htwo : t ∈ [ascii "n1", ascii "n2"] := hmem
        simp only [mem_cons, not_mem_nil, or_false] at htwo ⊢
        exact htwo.imp_right .inl
      · exact hmem
    simp only [mem_cons, not_mem_nil, or_false] at hthree
    exact hthree.resolve_left hne
  refine ⟨fun t ht => ?_, fun t ht => ?_, fun t ht => ?_, fun t t' _ _ hhost => ?_⟩
  · obtain rfl | rfl := hpeer t ht <;> decide
  · obtain rfl | rfl := hpeer t ht <;> decide
  · obtain rfl | rfl := hpeer t ht <;> decide
  · exact append_cancel_left hhost

/-- A node that holds version 5 of `k`, after a flush. -/
def flushed : Node :=
  { store := ((MemStorage.empty.set oneShard (ascii "k") (some (plainItem 5 "x"))).1.getSyncBuffer
      oneShard fun _ => 0).1 }

/-- A deletion with an old version, on a node whose keys have one other replica. -/
theorem stale_delete_sent_once :
    ∃ w : WritingNode, w.writes.length = 1 ∧
      ExactlyOnce (trio 2) (fun _ => 0) DrainedNode.peers DrainedNode.host w := by
  have hrun : GuardedRun (step (trio 2)) (HasRoom (trio 2)) { node := flushed }
      [.delete (ascii "k") 1 2 fun _ => true] _ :=
    .cons (by unfold HasRoom; decide) rfl (.nil _)
  refine ⟨_, by decide, (exactlyOnce_iff (by unfold Idle; decide) hrun
    (by unfold WithinLimit; decide) (allAlive_trio (.inl rfl))).mpr ?_⟩
  decide

/-- A single `Set` on a new node, whose keys have two other replicas: each of them is sent
    the operation three times. -/
theorem set_sent_three_times :
    ¬ ∀ (calls : List Call) (w : WritingNode),
      GuardedRun (step (trio 3)) (HasRoom (trio 3)) {} calls w →
      ExactlyOnce (trio 3) (fun _ => 0) DrainedNode.peers DrainedNode.host w := by
  intro hall
  have hrun : GuardedRun (step (trio 3)) (HasRoom (trio 3)) {}
      [.set (ascii "k") (plainItem 0 "x") 1 [] fun _ => true] _ :=
    .cons (by unfold HasRoom; decide) rfl (.nil _)
  have hperm := hall _ _ hrun (ascii "n2") ⟨by decide, ascii "k", by decide⟩
  revert hperm
  decide

end WritingNode

end GridKV
