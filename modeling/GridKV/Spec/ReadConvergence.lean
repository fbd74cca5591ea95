import GridKV.Spec.StoreLww
import GridKV.Spec.WriterEffects

/-!
# Do reads converge?

A cluster of nodes that share one ring, with writes to one key at any of them and the
queued operations delivered in any order.  Every node that the key is stored at is a
last-write-wins register, so once every operation has been applied at every replica, the
replicas hold the write of highest version.  A node that is not a replica and has written
the key keeps its own copy, which gossip never updates and which `reader.Get` prefers: it
reads the winner only if it wrote the winner.
-/

namespace GridKV

open Go Run MemStorage List Function

/-! ### The first replica -/

namespace HashRing

theorem prefix_collect (n : Nat) (result ids : List GoString) :
    result <+: collect n result ids := by
  induction ids generalizing result with
  | nil => exact prefix_rfl
  | cons id ids ih =>
    unfold collect
    split
    · split
      · exact ih result
      · exact (prefix_append result [id]).trans (ih _)
    · exact prefix_rfl

/-- The walk of a key starts at the same node, however many replicas are asked for. -/
theorem exists_getN_eq_cons {ring : HashRing} {key : GoString} {n m : Int}
    (hn : ring.getN key n ≠ []) (hm : 0 < m) :
    ∃ first rest rest', ring.getN key n = first :: rest ∧ ring.getN key m = first :: rest' := by
  have hpos : ring.nodes ≠ [] ∧ 0 < n := by
    unfold getN at hn
    split at hn
    · exact absurd rfl hn
    · rename_i h
      simpa only [not_or, Int.not_le] using h
  have hfirst : ∀ k : Int, 0 < k → ring.getN key k =
      collect k.toNat [] (ring.walk (ring.findNode (ring.hashHi key))) := by
    intro k hk
    rw [getN, if_neg]
    simp [hpos.1, hk]
  rw [hfirst n hpos.2] at hn ⊢
  rw [hfirst m hm]
  cases hwalk : ring.walk (ring.findNode (ring.hashHi key)) with
  | nil => simp [hwalk, collect] at hn
  | cons first ids =>
    -- `collect` takes the first node of the walk before it looks at the count again.
    have hstart : ∀ k : Int, 0 < k → ∃ rest, collect k.toNat [] (first :: ids) = first :: rest := by
      intro k hk
      have hstep : collect k.toNat [] (first :: ids) = collect k.toNat [first] ids := by
        have hlt : 0 < k.toNat := by omega
        simp [collect, hlt]
      obtain ⟨rest, hrest⟩ := prefix_collect k.toNat [first] ids
      exact ⟨rest, hstep.trans hrest.symm⟩
    obtain ⟨rest, hrest⟩ := hstart n hpos.2
    obtain ⟨rest', hrest'⟩ := hstart m hm
    exact ⟨first, rest, rest', hrest, hrest'⟩

end HashRing

/-! ### The cluster -/

/-- What the nodes share, and the store each is configured with.  The reader is built
    with a replica count of its own, for which `newReader` takes 3 unless it is positive. -/
structure ClusterConfig where
  ring : HashRing
  replicaCount : Int := 3
  readCount : Int := 3
  readCount_pos : 0 < readCount := by decide
  store : GoString → StoreConfig

namespace ClusterConfig

def node (cfg : ClusterConfig) (nodeID : GoString) : NodeConfig where
  nodeID := nodeID
  store := cfg.store nodeID
  ring := cfg.ring
  replicaCount := cfg.replicaCount

def reader (cfg : ClusterConfig) (nodeID : GoString) : ReaderConfig where
  nodeID := nodeID
  store := cfg.store nodeID
  ring := cfg.ring
  replicaCount := cfg.readCount

def replicas (cfg : ClusterConfig) (key : GoString) : List GoString :=
  cfg.ring.getN key cfg.replicaCount

end ClusterConfig

/-- A write to the key: the node that issued it and the item with its version. -/
structure ClusterWrite where
  node : GoString
  item : StoredItem
  deriving DecidableEq, Repr

/-- The nodes, the writes issued so far and the versions applied at each node. -/
structure Cluster where
  nodes : GoString → Node := fun _ => {}
  writes : List ClusterWrite := []
  applied : List (GoString × Int64) := []

namespace Cluster

variable {w : ClusterWrite} {node x source y target : GoString} {item : StoredItem}
  {reading : Int64} {op : SyncOperation} {visit : List GoString} {accepts : Nat → Bool}
  {now : GoString → Time}

/-- A write at a node, or the delivery to `target` of an operation queued at `source`; a
    batch is applied one operation after the other.  Delivery leaves the operation in the
    queue, so the operations can reach the replicas in any order and more than once. -/
inductive Action where
  | set (node : GoString) (item : StoredItem) (reading : Int64) (visit : List GoString)
      (accepts : Nat → Bool)
  | deliver (source target : GoString) (op : SyncOperation) (now : Time)

variable (cfg : ClusterConfig) (k : GoString)

/-- The item a write would store. -/
def itemOf (c : Cluster) (node : GoString) (item : StoredItem) (reading : Int64) : StoredItem :=
  Node.versionedItem k item ((c.nodes node).writer.nextVersion k reading)

def step (c : Cluster) : Action → Option Cluster
  | .set node item reading visit accepts =>
    some { c with
      nodes := update c.nodes node
        ((c.nodes node).set (cfg.node node) k item reading visit accepts).1
      writes := ⟨node, itemOf k c node item reading⟩ :: c.writes }
  | .deliver source target op now =>
    match op.item with
    | none => none
    | some item =>
      if op ∈ (c.nodes source).writer.pendingOps then
        some { c with
          nodes := update c.nodes target { c.nodes target with
            store := (Gossip.applyOps (cfg.node target) (fun _ => now) 0 (c.nodes target).store
              [some op]).1 }
          applied := (target, item.version) :: c.applied }
      else none

/-- A write is acknowledged, and its version is not used twice. -/
def Acknowledged (c : Cluster) : Action → Prop
  | .set node item reading visit accepts =>
    ((c.nodes node).set (cfg.node node) k item reading visit accepts).2 = none ∧
      ∀ w ∈ c.writes, w.item.version ≠ (itemOf k c node item reading).version
  | .deliver .. => True

/-- The store a step writes to has memory to spare and no expired entry of the key. -/
def Undisturbed (c : Cluster) : Action → Prop
  | .set node item reading _ _ =>
    HasMemory (cfg.store node) (c.nodes node).store k (itemOf k c node item reading)
  | .deliver _ target op now =>
    (∀ item, op.item = some item → HasMemory (cfg.store target) (c.nodes target).store k item) ∧
      Unexpired (cfg.store target) now (c.nodes target).store k

/-- Every operation has been applied at every replica of the key. -/
def Delivered (c : Cluster) : Prop :=
  ∀ w ∈ c.writes, ∀ t ∈ cfg.replicas k, t ≠ w.node → (t, w.item.version) ∈ c.applied

/-- The write has the highest version. -/
def IsWinner (c : Cluster) (w : ClusterWrite) : Prop :=
  w ∈ c.writes ∧ ∀ w' ∈ c.writes, w'.item.version ≤ w.item.version

/-- `reader.Get` at a node with an empty cache, all nodes alive and answering; `now` gives
    the clock of each node. -/
def readAt (c : Cluster) (now : GoString → Time) (x : GoString) :
    Except StoreError (Option StoredItem) :=
  (Reader.get (cfg.reader x) (now x) (c.nodes x).store (fun _ => true)
    (fun t => Reader.remoteGet (cfg.store t) (now t) (now x) (c.nodes t).store k) k).2

/-- The read has found the item. -/
def Returns (answer : Except StoreError (Option StoredItem)) (item : StoredItem) : Prop :=
  ∃ found, answer = .ok (some found) ∧ found.version = item.version ∧
    found.value = item.value ∧ found.expireAt = item.expireAt

/-! ### What every node holds -/

/-- The register of the key at a node. -/
def held (c : Cluster) (x : GoString) : Option CompressedItem :=
  entry (cfg.store x) (c.nodes x).store k

/-- Every register holds a write it was offered and has reached the versions of those
    writes and deliveries it took part in. -/
structure Replicated (c : Cluster) : Prop where
  placed : c.writes ≠ [] → k ≠ [] ∧ cfg.replicas k ≠ []
  held_write : ∀ {x e}, held cfg k c x = some e → ∃ w ∈ c.writes,
    e = prepareCompressedItem (cfg.store x) w.item ∧ (w.node = x ∨ x ∈ cfg.replicas k)
  reached_write : ∀ {w}, w ∈ c.writes →
    Lww.Reached versionOf (held cfg k c w.node) w.item.version.toInt
  reached_applied : ∀ {x v}, (x, v) ∈ c.applied → x ∈ cfg.replicas k →
    Lww.Reached versionOf (held cfg k c x) v.toInt
  queued_write : ∀ {x op}, op ∈ (c.nodes x).writer.pendingOps →
    op.key = k ∧ ∃ w ∈ c.writes, op.item = some w.item
  distinct : ∀ {w w'}, w ∈ c.writes → w' ∈ c.writes → w.item.version = w'.item.version → w = w'

variable {cfg k} {c d : Cluster}

theorem replicated_initial : Replicated cfg k {} where
  placed h := absurd rfl h
  held_write h := nomatch h
  reached_write h := nomatch h
  reached_applied h := nomatch h
  queued_write h := nomatch h
  distinct h := nomatch h

/-- A step offers one item to the register of one node. -/
def Offers (cfg : ClusterConfig) (k : GoString) (c d : Cluster) (x : GoString) (item : StoredItem) :
    Prop :=
  ∀ y, held cfg k d y = if y = x then
    Lww.put versionOf (held cfg k c x) (prepareCompressedItem (cfg.store x) item)
  else held cfg k c y

theorem Offers.reached {v : Int} (h : Offers cfg k c d x item)
    (hv : Lww.Reached versionOf (held cfg k c y) v) : Lww.Reached versionOf (held cfg k d y) v := by
  rw [h y]
  split
  · subst y; exact hv.put _
  · exact hv

theorem Offers.reached_self (h : Offers cfg k c d x item) :
    Lww.Reached versionOf (held cfg k d x) item.version.toInt := by
  rw [h x, if_pos rfl]
  exact Lww.reached_put ..

theorem Offers.held_write (h : Offers cfg k c d x item) {e : CompressedItem}
    (he : held cfg k d y = some e) :
    held cfg k c y = some e ∨ y = x ∧ e = prepareCompressedItem (cfg.store y) item := by
  rw [h y] at he
  split at he
  · subst y
    exact (Lww.eq_or_eq_of_put_eq_some he).elim (fun hnew => .inr ⟨rfl, hnew⟩) .inl
  · exact .inl he

/-- A write offers its item to the writer's own register. -/
theorem offers_set (hack : Acknowledged cfg k c (.set node item reading visit accepts))
    (hcalm : Undisturbed cfg k c (.set node item reading visit accepts))
    (hstep : c.step cfg k (.set node item reading visit accepts) = some d) :
    (k ≠ [] ∧ cfg.replicas k ≠ []) ∧ Offers cfg k c d node (itemOf k c node item reading) := by
  cases hstep
  obtain ⟨hreplicas, hstore, hnil⟩ := Node.store_set_of_nil hack.1
  have hk : k ≠ [] := (set_snd_eq_none_iff.mp hnil).1
  refine ⟨⟨hk, hreplicas⟩, fun y => ?_⟩
  unfold held
  by_cases hy : y = node
  · subst hy
    have hput := entry_set_of_hasMemory hk hcalm k
    rw [if_pos rfl] at hput ⊢
    simp only [update_self]
    rw [hstore]
    exact hput
  · simp only [update_of_ne hy, if_neg hy]

theorem Replicated.set (h : Replicated cfg k c)
    (hack : Acknowledged cfg k c (.set node item reading visit accepts))
    (hcalm : Undisturbed cfg k c (.set node item reading visit accepts))
    (hstep : c.step cfg k (.set node item reading visit accepts) = some d) :
    Replicated cfg k d := by
  obtain ⟨hplaced, hoffers⟩ := offers_set hack hcalm hstep
  have hwrites : d.writes = ⟨node, itemOf k c node item reading⟩ :: c.writes := by
    cases hstep
    rfl
  have happlied : d.applied = c.applied := by
    cases hstep
    rfl
  constructor
  · exact fun _ => hplaced
  · intro x e he
    rw [hwrites]
    -- The register holds what it held before, or the item of this write.
    cases hoffers.held_write he with
    | inl hold =>
      obtain ⟨w, hw, hform⟩ := h.held_write hold
      exact ⟨w, mem_cons_of_mem _ hw, hform⟩
    | inr hnew => exact ⟨_, mem_cons_self, hnew.2, .inl hnew.1.symm⟩
  · intro w hw
    rw [hwrites] at hw
    cases mem_cons.mp hw with
    | inl hnew => subst hnew; exact hoffers.reached_self
    | inr hold => exact hoffers.reached (h.reached_write hold)
  · intro x v hv hx
    exact hoffers.reached (h.reached_applied (happlied ▸ hv) hx)
  · intro x op hop
    rw [hwrites]
    -- An operation queued before is still that of a recorded write.
    have hold : op ∈ (c.nodes x).writer.pendingOps →
        op.key = k ∧ ∃ w ∈ ⟨node, itemOf k c node item reading⟩ :: c.writes,
          op.item = some w.item := by
      intro hop
      obtain ⟨hkey, w, hw, hitem⟩ := h.queued_write hop
      exact ⟨hkey, w, mem_cons_of_mem _ hw, hitem⟩
    cases hstep
    by_cases hx : x = node
    · subst hx
      simp only [update_self] at hop
      cases Node.mem_pendingOps_set hop with
      | inl hop => exact hold hop
      | inr hnew =>
        subst hnew
        exact ⟨rfl, _, mem_cons_self, rfl⟩
    · simp only [update_of_ne hx] at hop
      exact hold hop
  · -- The new version is not one of the old ones.
    intro w w' hw hw' heq
    rw [hwrites, mem_cons] at hw hw'
    rcases hw with rfl | hw <;> rcases hw' with rfl | hw'
    · rfl
    · exact absurd heq.symm (hack.2 w' hw')
    · exact absurd heq (hack.2 w hw)
    · exact h.distinct hw hw' heq

theorem entry_applyOp_replica {s : MemStorage} {now : Time} (hreplica : x ∈ cfg.replicas k)
    (hk : k ≠ []) (hmemory : HasMemory (cfg.store x) s k item)
    (hfresh : Unexpired (cfg.store x) now s k) :
    entry (cfg.store x) (Gossip.applyOp (cfg.node x) now s k item).1 k =
      Lww.put versionOf (entry (cfg.store x) s k) (prepareCompressedItem (cfg.store x) item) := by
  have hlocal : (cfg.node x).isReplica k = true := decide_eq_true hreplica
  exact (Gossip.entry_applyOp hlocal hk hmemory hfresh k).trans (if_pos rfl)

/-- A delivery offers the item to a replica and leaves any other node alone. -/
theorem deliver_cases (h : Replicated cfg k c) {now : Time}
    (hcalm : Undisturbed cfg k c (.deliver source target op now))
    (hstep : c.step cfg k (.deliver source target op now) = some d) :
    ∃ w ∈ c.writes, d.writes = c.writes ∧ d.applied = (target, w.item.version) :: c.applied ∧
      (∀ x, (d.nodes x).writer = (c.nodes x).writer) ∧
      (target ∈ cfg.replicas k ∧ Offers cfg k c d target w.item ∨
        target ∉ cfg.replicas k ∧ ∀ x, held cfg k d x = held cfg k c x) := by
  simp only [step] at hstep
  split at hstep
  · exact nomatch hstep
  · rename_i item hitem
    split at hstep
    · rename_i hqueued
      -- The queue holds items of writes only, so the item delivered is one.
      obtain ⟨hkey, w, hw, hwitem⟩ := h.queued_write hqueued
      obtain rfl : item = w.item := Option.some.inj (hitem.symm.trans hwitem)
      have hk : k ≠ [] := (h.placed (ne_nil_of_mem hw)).1
      cases hstep
      refine ⟨w, hw, rfl, rfl, ?_, ?_⟩
      · intro x
        by_cases hx : x = target
        · subst hx; simp
        · simp [hx]
      · simp only [held, Gossip.applyOps_singleton hitem, hkey]
        by_cases hreplica : target ∈ cfg.replicas k
        · refine .inl ⟨hreplica, fun x => ?_⟩
          by_cases hx : x = target
          · subst hx
            simpa [held] using entry_applyOp_replica hreplica hk (hcalm.1 _ hitem) hcalm.2
          · simp [held, hx]
        · refine .inr ⟨hreplica, fun x => ?_⟩
          by_cases hx : x = target
          · subst hx
            have hskip : ¬ (cfg.node x).isReplica k := fun h => hreplica (of_decide_eq_true h)
            simp [Gossip.applyOp_of_not_isReplica hskip]
          · simp [hx]
    · exact nomatch hstep

theorem Replicated.deliver (h : Replicated cfg k c) {now : Time}
    (hcalm : Undisturbed cfg k c (.deliver source target op now))
    (hstep : c.step cfg k (.deliver source target op now) = some d) : Replicated cfg k d := by
  obtain ⟨w, hw, hwrites, happlied, hwriters, hheld⟩ := deliver_cases h hcalm hstep
  have hreached : ∀ {x v}, Lww.Reached versionOf (held cfg k c x) v →
      Lww.Reached versionOf (held cfg k d x) v := by
    intro x v hv
    obtain ⟨-, hoffers⟩ | ⟨-, hsame⟩ := hheld
    · exact hoffers.reached hv
    · rwa [hsame]
  constructor
  · rw [hwrites]; exact h.placed
  · intro x e he
    rw [hwrites]
    obtain ⟨hreplica, hoffers⟩ | ⟨-, hsame⟩ := hheld
    · cases hoffers.held_write he with
      | inl hold => exact h.held_write hold
      | inr hnew => exact ⟨w, hw, hnew.2, .inr (hnew.1 ▸ hreplica)⟩
    · exact h.held_write (hsame x ▸ he)
  · rw [hwrites]
    exact fun hw' => hreached (h.reached_write hw')
  · intro x v hv hx
    rw [happlied, mem_cons] at hv
    cases hv with
    | inl hnew =>
      cases hnew
      -- A delivery to a node that is not a replica is recorded but changes nothing.
      obtain ⟨-, hoffers⟩ | ⟨hnot, -⟩ := hheld
      · exact hoffers.reached_self
      · exact absurd hx hnot
    | inr hold => exact hreached (h.reached_applied hold hx)
  · intro x op hop
    rw [hwriters] at hop
    rw [hwrites]
    exact h.queued_write hop
  · rw [hwrites]; exact h.distinct

theorem replicated_of_run {as : List Action}
    (hrun : GuardedRun (step cfg k)
      (fun c a => Acknowledged cfg k c a ∧ Undisturbed cfg k c a) {} as c) :
    Replicated cfg k c := by
  refine hrun.invariant (fun c a d h hguard hstep => ?_) replicated_initial
  cases a with
  | set node item reading visit accepts => exact h.set hguard.1 hguard.2 hstep
  | deliver source target op now => exact h.deliver hguard.2 hstep

/-! ### Reading -/

/-- A register that has reached the highest version holds the winner. -/
theorem Replicated.held_eq (h : Replicated cfg k c) (hw : IsWinner c w)
    (hreached : Lww.Reached versionOf (held cfg k c x) w.item.version.toInt) :
    held cfg k c x = some (prepareCompressedItem (cfg.store x) w.item) := by
  refine Lww.eq_of_reached
    (P := fun e => ∃ w' ∈ c.writes, e = prepareCompressedItem (cfg.store x) w'.item) ?_ ?_ ?_ hreached
  · intro e he
    obtain ⟨w', hw', hform, -⟩ := h.held_write he
    exact ⟨w', hw', hform⟩
  · rintro e ⟨w', hw', rfl⟩
    exact Int64.le_iff_toInt_le.mp (hw.2 w' hw')
  · rintro e ⟨w', hw', rfl⟩ hversion
    -- Versions are distinct, so the write of the highest version is one write.
    rw [h.distinct hw' hw.1 (Int64.toInt_inj.mp hversion)]

/-- After delivery every replica holds the winner, and so does the node that wrote it. -/
theorem Replicated.held_winner (h : Replicated cfg k c) (hdelivered : Delivered cfg k c)
    (hw : IsWinner c w) (hx : x ∈ cfg.replicas k ∨ x = w.node) :
    held cfg k c x = some (prepareCompressedItem (cfg.store x) w.item) := by
  by_cases hwriter : x = w.node
  · subst hwriter
    exact h.held_eq hw (h.reached_write hw.1)
  · -- Another node has it from the delivery of the operation.
    have hreplica := hx.resolve_right hwriter
    exact h.held_eq hw (h.reached_applied (hdelivered w hw.1 x hreplica hwriter) hreplica)

/-- A node that is not a replica and has not written the key holds nothing. -/
theorem Replicated.held_eq_none (h : Replicated cfg k c) (hreplica : x ∉ cfg.replicas k)
    (hwriter : ∀ w ∈ c.writes, w.node ≠ x) : held cfg k c x = none := by
  cases he : held cfg k c x with
  | none => rfl
  | some e =>
    obtain ⟨w, hw, -, hplace⟩ := h.held_write he
    exact absurd hplace (not_or.mpr ⟨hwriter w hw, hreplica⟩)

/-- A local copy is what a read returns. -/
theorem readAt_of_held (hlz4 : (cfg.store x).lz4.Lawful) (hk : k ≠ [])
    (hheld : held cfg k c x = some (prepareCompressedItem (cfg.store x) item))
    (hfresh : expiredAt (now x) (prepareCompressedItem (cfg.store x) item) = false)
    (hsize : item.value.length ≤ maxDecompressBuffer) : Returns (readAt cfg k c now x) item := by
  exact ⟨_, Reader.get_of_local (getNoCopy_of_entry hlz4 hk hheld hfresh hsize), rfl, rfl, rfl⟩

/-- Without a local copy the read returns what the first replica holds, if it has a
    value. -/
theorem readAt_of_absent (hk : k ≠ []) (hx : x ∉ cfg.replicas k) (hheld : held cfg k c x = none)
    (hreplicas : cfg.replicas k ≠ []) (hvalue : item.value ≠ []) (hfetch : ∀ t ∈ cfg.replicas k,
      Reader.remoteGet (cfg.store t) (now t) (now x) (c.nodes t).store k =
        some (some { item with key := k })) : Returns (readAt cfg k c now x) item := by
  obtain ⟨first, rest, rest', hn, hm⟩ := HashRing.exists_getN_eq_cons hreplicas cfg.readCount_pos
  have hfirst : first ∈ cfg.replicas k := by
    rw [ClusterConfig.replicas, hn]
    exact mem_cons_self
  have hne : first ≠ x := fun h => hx (h ▸ hfirst)
  refine ⟨{ item with key := k }, ?_, rfl, rfl, rfl⟩
  have hheld' : entry (cfg.reader x).store (c.nodes x).store k = none := hheld
  rw [readAt, Reader.get_of_absent hk hheld']
  -- The first replica is not the reader itself, so it survives the filter.
  have htargets : ∃ ts, ((cfg.reader x).ring.getN k (cfg.reader x).replicaCount).filter
      (fun t => t ≠ (cfg.reader x).nodeID ∧ true) = first :: ts := by
    simp only [ClusterConfig.reader, hm]
    exact ⟨_, filter_cons_of_pos (by simp [hne])⟩
  obtain ⟨ts, hts⟩ := htargets
  rw [hts]
  exact congrArg Except.ok (Reader.firstLive_cons (hfetch first hfirst) hvalue)

/-- **Where reads converge.**  After writes of distinct versions, made and delivered without
    eviction or expiry, and once every operation has been applied at every replica, a read
    returns the write of highest version at every replica, at the node that issued it, and
    at the nodes that never wrote the key. -/
theorem readAt_returns_winner (hlz4 : ∀ x, (cfg.store x).lz4.Lawful) {as : List Action}
    (hrun : GuardedRun (step cfg k)
      (fun c a => Acknowledged cfg k c a ∧ Undisturbed cfg k c a) {} as c)
    (hdelivered : Delivered cfg k c) {w : ClusterWrite} (hw : IsWinner c w)
    (hsize : w.item.value.length ≤ maxDecompressBuffer) {now : GoString → Time}
    (hfresh : ∀ x, expiredAt (now x) (prepareCompressedItem (cfg.store x) w.item) = false)
    {x : GoString}
    (hplace : x ∈ cfg.replicas k ∨ x = w.node ∨
      (∀ w' ∈ c.writes, w'.node ≠ x) ∧ w.item.value ≠ [] ∧ WireExpiry w.item.expireAt) :
    Returns (readAt cfg k c now x) w.item := by
  have h := replicated_of_run hrun
  obtain ⟨hk, hreplicas⟩ := h.placed (ne_nil_of_mem hw.1)
  have hlocal : x ∈ cfg.replicas k ∨ x = w.node → Returns (readAt cfg k c now x) w.item :=
    fun hx => readAt_of_held (hlz4 x) hk (h.held_winner hdelivered hw hx) (hfresh x) hsize
  by_cases hx : x ∈ cfg.replicas k
  · exact hlocal (.inl hx)
  · obtain hx' | hwriter | ⟨hsilent, hvalue, hexpiry⟩ := hplace
    · exact absurd hx' hx
    · exact hlocal (.inr hwriter)
    · -- No copy here, so the first replica answers.
      refine readAt_of_absent hk hx (h.held_eq_none hx hsilent) hreplicas hvalue (fun t ht => ?_)
      exact Reader.remoteGet_of_entry (hlz4 t) hk (h.held_winner hdelivered hw (.inl ht))
        (hfresh t) hsize hvalue hexpiry (now x)

/-- Two nodes, the first of which is the only replica of every key. -/
def pair : ClusterConfig where
  ring :=
    { hashHi := fun _ => 0
      nodes := [⟨0, ascii "n1"⟩, ⟨1, ascii "n2"⟩]
      sorted := by decide }
  replicaCount := 1
  store _ := oneShard

/-- The second node writes version 1, the replica version 2, and the operation of the
    first write reaches the replica. -/
def overtaken : List Action :=
  [.set (ascii "n2") (plainItem 0 "a") 1 [] fun _ => true,
    .set (ascii "n1") (plainItem 0 "b") 2 [] fun _ => true,
    .deliver (ascii "n2") (ascii "n1")
      ⟨ascii "k", .set, some { plainItem 1 "a" with key := ascii "k" }⟩ 0]

/-- The item of the winning write. -/
def overtaking : StoredItem := { plainItem 2 "b" with key := ascii "k" }

theorem exists_overtaken : ∃ c,
    GuardedRun (step pair (ascii "k"))
      (fun c a => Acknowledged pair (ascii "k") c a ∧ Undisturbed pair (ascii "k") c a) {}
      overtaken c ∧
    Delivered pair (ascii "k") c ∧ IsWinner c ⟨ascii "n1", overtaking⟩ ∧
    readAt pair (ascii "k") c (fun _ => 0) (ascii "n2") = .ok (some (plainItem 1 "a")) := by
  refine ⟨_, .cons ⟨by unfold Acknowledged; decide, by unfold Undisturbed HasMemory; decide⟩ rfl
    (.cons ⟨by unfold Acknowledged; decide, by unfold Undisturbed HasMemory; decide⟩ rfl
      (.cons ⟨trivial, ?_, ?_⟩ rfl (.nil _))), ?_, ?_, by decide +kernel⟩
  · intro item hitem
    cases hitem
    unfold HasMemory
    decide
  · intro e he
    cases he
    decide
  · unfold Delivered
    decide
  · unfold IsWinner
    decide

theorem readAt_replica_overtaken : ∃ c, Runs (step pair (ascii "k")) {} overtaken c ∧
    Returns (readAt pair (ascii "k") c (fun _ => 0) (ascii "n1")) overtaking := by
  obtain ⟨c, hrun, hdelivered, hwinner, -⟩ := exists_overtaken
  refine ⟨c, hrun.runs, readAt_returns_winner (fun _ => shortInputLZ4_lawful)
    hrun hdelivered hwinner (by decide) (fun _ => rfl) (.inl (by decide))⟩

/-- The second node goes on reading its own write, although every operation has been
    applied at every replica. -/
theorem not_readAt_writer_overtaken :
    ¬ ∀ (as : List Action) (c : Cluster),
      GuardedRun (step pair (ascii "k")) (Acknowledged pair (ascii "k")) {} as c →
      Delivered pair (ascii "k") c → ∀ w, IsWinner c w →
      ∀ (now : GoString → Time) (x : GoString), Returns (readAt pair (ascii "k") c now x) w.item := by
  intro hall
  obtain ⟨c, hrun, hdelivered, hwinner, hread⟩ := exists_overtaken
  obtain ⟨found, hfound, hversion, -⟩ :=
    hall _ c (hrun.mono fun _ _ h => h.1) hdelivered _ hwinner (fun _ => 0) (ascii "n2")
  cases hread.symm.trans hfound
  exact absurd hversion (by decide)

end Cluster

end GridKV
