import GridKV.Spec.SyncDrain
import GridKV.Spec.WriterEffects

/-!
# Does an acknowledged write take effect?

`writer.Set` takes its version from the node's own clock and the store keeps the higher
version, so a write takes effect when nothing the store holds for the key is as new as
the reading.  Everything the node wrote itself is older, since readings increase; the
rest came from elsewhere and is collected in `foreign`.  The clock is never told about
it, and a foreign version ahead of the clock makes the store drop the write while `Set`
returns nil.
-/

namespace GridKV

open Go Run MemStorage

/-! ### What a gossip batch does to the store -/

namespace Gossip

/-- The versions a batch of operations brings for a key. -/
def versionsOf (ops : List (Option SyncOperation)) : List (GoString × Int64) :=
  ops.filterMap fun op => op.bind fun op => op.item.map fun item => (op.key, item.version)

/-- The operation on `key` is stored: the node is a replica, it finds nothing as new, and
    `Set` takes the item. -/
def stores (cfg : NodeConfig) (now : Time) (s : MemStorage) (key : GoString) (item : StoredItem) :
    Bool :=
  cfg.isReplica key &&
    match s.getNoCopy cfg.store now key with
    | (r, .ok existing) =>
      decide (existing.version < item.version) && setStores cfg.store r key item
    | (r, .error _) => setStores cfg.store r key item

section

variable {cfg : NodeConfig} {now : Time} {s : MemStorage} {key : GoString} {item : StoredItem}

/-- A stored operation went to `Set`, which took the item. -/
theorem exists_set_of_stores (h : stores cfg now s key item) :
    ∃ r, Removes cfg.store s r ∧ applyOp cfg now s key item = r.set cfg.store key (some item) ∧
      setStores cfg.store r key item := by
  have hremoves := removes_getNoCopy cfg.store now s key
  simp only [stores, Bool.and_eq_true] at h
  obtain ⟨hreplica, hstores⟩ := h
  simp only [applyOp, if_pos hreplica]
  cases hread : s.getNoCopy cfg.store now key with
  | mk r result =>
    rw [hread] at hremoves hstores
    cases result with
    | ok existing =>
      simp only [Bool.and_eq_true, decide_eq_true_eq] at hstores
      exact ⟨r, hremoves, if_neg (Int64.not_le.mpr hstores.1), hstores.2⟩
    | error err => exact ⟨r, hremoves, rfl, hstores⟩

theorem removes_applyOp_of_not_stores (h : ¬stores cfg now s key item) :
    Removes cfg.store s (applyOp cfg now s key item).1 := by
  have hremoves := removes_getNoCopy cfg.store now s key
  unfold applyOp
  unfold stores at h
  by_cases hreplica : cfg.isReplica key
  · simp only [if_pos hreplica]
    cases hread : s.getNoCopy cfg.store now key with
    | mk r result =>
      rw [hread] at hremoves h
      cases result with
      | ok existing =>
        dsimp only
        by_cases hold : existing.version ≥ item.version
        · rw [if_pos hold]
          exact hremoves
        · rw [if_neg hold]
          have hnew : existing.version < item.version := Int64.not_le.mp hold
          have hset : ¬setStores cfg.store r key item := by simpa [hreplica, hnew] using h
          exact hremoves.trans (removes_set_of_not_setStores hset)
      | error err =>
        have hset : ¬setStores cfg.store r key item := by simpa [hreplica] using h
        exact hremoves.trans (removes_set_of_not_setStores hset)
  · rw [if_neg hreplica]
    exact .refl _ _

theorem entry_of_entry_applyOp {k : GoString} {e : CompressedItem}
    (h : entry cfg.store (applyOp cfg now s key item).1 k = some e) :
    entry cfg.store s k = some e ∨ k = key ∧ e.version = item.version := by
  by_cases hstores : stores cfg now s key item
  · obtain ⟨r, hr, happ, -⟩ := exists_set_of_stores hstores
    rw [happ] at h
    cases entry_of_entry_set h with
    | inl hold => exact .inl (hr.entry_of_entry hold)
    | inr hnew => exact .inr ⟨hnew.1, by rw [hnew.2]; rfl⟩
  · exact .inl ((removes_applyOp_of_not_stores hstores).entry_of_entry h)

end

theorem entry_of_entry_applyOps {cfg : NodeConfig} {clock : Nat → Time} {n : Nat} {s : MemStorage}
    {ops : List (Option SyncOperation)} {k : GoString} {e : CompressedItem}
    (h : entry cfg.store (applyOps cfg clock n s ops).1 k = some e) :
    entry cfg.store s k = some e ∨ (k, e.version) ∈ versionsOf ops := by
  induction ops generalizing n s with
  | nil => exact .inl h
  | cons op ops ih =>
    -- The rest of the batch, whatever the first operation has left in the store.
    have hskip : ∀ {t}, entry cfg.store (applyOps cfg clock (n + 1) t ops).1 k = some e →
        entry cfg.store t k = some e ∨ (k, e.version) ∈ versionsOf (op :: ops) := by
      intro t ht
      cases ih ht with
      | inl hold => exact .inl hold
      | inr hlater => exact .inr (List.mem_filterMap.mpr (by
          obtain ⟨x, hx, hmap⟩ := List.mem_filterMap.mp hlater
          exact ⟨x, List.mem_cons_of_mem _ hx, hmap⟩))
    cases op with
    | none => exact hskip h
    | some op =>
      simp only [applyOps] at h
      split at h
      · exact hskip h
      · rename_i item hitem
        -- What the first operation has left there.
        have hop : ∀ {t err}, applyOp cfg (clock n) s op.key item = (t, err) →
            entry cfg.store t k = some e →
            entry cfg.store s k = some e ∨ (k, e.version) ∈ versionsOf (some op :: ops) := by
          intro t err happ ht
          have hfst : (applyOp cfg (clock n) s op.key item).1 = t := by rw [happ]
          cases entry_of_entry_applyOp (hfst ▸ ht) with
          | inl hold => exact .inl hold
          | inr hnew =>
            refine .inr (List.mem_filterMap.mpr ⟨some op, List.mem_cons_self, ?_⟩)
            simp [hitem, hnew.1, hnew.2]
        split at h <;> rename_i happ
        · exact hop happ h
        · cases hskip h with
          | inl hmid => exact hop happ hmid
          | inr hlater => exact .inr hlater

end Gossip

/-! ### Runs of a node -/

/-- A node with the last reading of its clock and the versions that did not come from
    its clock. -/
structure ClockedNode where
  node : Node := {}
  lastReading : Option Int64 := none
  foreign : List (GoString × Int64) := []

namespace ClockedNode

variable {last : Option Int64} {v reading : Int64}

/-- The calls on a node: writes, gossip batches, and what runs in the background. -/
inductive Action where
  | set (key : GoString) (item : StoredItem) (reading : Int64) (visit : List GoString)
      (accepts : Nat → Bool)
  | delete (key : GoString) (version reading : Int64) (accepts : Nat → Bool)
  | applyOps (clock : Nat → Time) (ops : List (Option SyncOperation))
  | flush (clock : Nat → Time) (members : List NodeInfo) (accepts : GoString → Bool)
  | drain (clock : Nat → Time)
  | read (now : Time) (key : GoString)
  | runAsyncEviction
  | cleanExpired (now : Time)

/-- The clock has moved on since the last reading. -/
def later (last : Option Int64) (reading : Int64) : Bool :=
  match last with
  | none => true
  | some l => l < reading

/-- A tombstone whose version is not the clock reading: the caller asked for a version
    the clock has not reached, or the reading is not positive. -/
def raisedTombstone (key : GoString) (version reading : Int64) : List (GoString × Int64) :=
  let newVersion := Node.tombstoneVersion version reading
  if newVersion = reading then [] else [(key, newVersion)]

def step (cfg : NodeConfig) (n : ClockedNode) : Action → Option ClockedNode
  | .set key item reading visit accepts =>
    if later n.lastReading reading then
      some { n with
        node := (n.node.set cfg key item reading visit accepts).1
        lastReading := some reading }
    else none
  | .delete key version reading accepts =>
    if later n.lastReading reading then
      some
        { node := (n.node.delete cfg key version reading accepts).1
          lastReading := some reading
          foreign := raisedTombstone key version reading ++ n.foreign }
    else none
  | .applyOps clock ops =>
    some { n with
      node.store := (Gossip.applyOps cfg clock 0 n.node.store ops).1
      foreign := Gossip.versionsOf ops ++ n.foreign }
  | .flush clock members accepts =>
    some { n with node := (n.node.flushInternal cfg clock members accepts).1 }
  | .drain clock => some { n with node.store := (n.node.store.getSyncBuffer cfg.store clock).1 }
  | .read now key => some { n with node.store := (n.node.store.get cfg.store now key).1 }
  | .runAsyncEviction => some { n with node.store := n.node.store.runAsyncEviction cfg.store }
  | .cleanExpired now => some { n with node.store := n.node.store.cleanExpired cfg.store now }

/-- The version is at most the last reading. -/
def Passed (last : Option Int64) (v : Int64) : Prop := ∃ l, last = some l ∧ v ≤ l

theorem Passed.lt (h : Passed last v) (hlater : later last reading) : v < reading := by
  obtain ⟨l, rfl, hle⟩ := h
  simp only [later, decide_eq_true_eq] at hlater
  exact Int64.lt_of_le_of_lt hle hlater

theorem Passed.next (h : Passed last v) (hlater : later last reading) : Passed (some reading) v :=
  ⟨reading, rfl, Int64.le_of_lt (h.lt hlater)⟩

/-- Every version the node remembers or stores has been passed by its clock, or is
    foreign. -/
structure Accounted (cfg : NodeConfig) (n : ClockedNode) : Prop where
  lastVersion_passed : ∀ {k v}, n.node.writer.lastVersions.lookup k = some v →
    Passed n.lastReading v
  entry_passed : ∀ {k e}, entry cfg.store n.node.store k = some e →
    Passed n.lastReading e.version ∨ (k, e.version) ∈ n.foreign

variable {cfg : NodeConfig} {n m : ClockedNode}

theorem accounted_initial (cfg : NodeConfig) : Accounted cfg {} where
  lastVersion_passed h := nomatch h
  entry_passed h := nomatch h

/-- With increasing readings the version of a write is the reading itself. -/
theorem Accounted.nextVersion_eq (h : Accounted cfg n) (hlater : later n.lastReading reading)
    (key : GoString) : n.node.writer.nextVersion key reading = reading := by
  unfold Writer.nextVersion
  split
  · rename_i lastVersion hlast
    exact if_neg (Int64.not_le.mpr ((h.lastVersion_passed hlast).lt hlater))
  · rfl

/-- A change of the store that brings in nothing. -/
theorem Accounted.of_entry_of_entry {s : MemStorage} (h : Accounted cfg n)
    (hsub : ∀ {k e}, entry cfg.store s k = some e → entry cfg.store n.node.store k = some e) :
    Accounted cfg { n with node.store := s } :=
  ⟨h.lastVersion_passed, fun he => h.entry_passed (hsub he)⟩

theorem Accounted.set (h : Accounted cfg n) (hlater : later n.lastReading reading) (key : GoString)
    (item : StoredItem) (visit : List GoString) (accepts : Nat → Bool) :
    Accounted cfg { n with
      node := (n.node.set cfg key item reading visit accepts).1
      lastReading := some reading } := by
  have hversion := h.nextVersion_eq hlater key
  constructor
  · intro k v hv
    simp only [Node.set, Node.lastVersions_finish, Node.lastVersions_storeOrQueue,
      Writer.trackVersion, hversion] at hv
    -- The size limit only forgets versions.
    replace hv := Writer.lookup_of_lookup_cleanup hv
    by_cases hk : k = key
    · rw [hk, AList.lookup_insert] at hv
      exact ⟨reading, rfl, Int64.le_of_eq (Option.some.inj hv).symm⟩
    · rw [AList.lookup_insert_ne hk] at hv
      exact (h.lastVersion_passed hv).next hlater
  · intro k e he
    cases Node.entry_of_entry_storeOrQueue he with
    | inl hold => exact (h.entry_passed hold).imp_left fun hp => hp.next hlater
    | inr hnew =>
      refine .inl ⟨reading, rfl, Int64.le_of_eq ?_⟩
      rw [hnew.2, Node.versionedItem, hversion]

theorem Accounted.delete (h : Accounted cfg n) (hlater : later n.lastReading reading)
    (key : GoString) (version : Int64) (accepts : Nat → Bool) :
    Accounted cfg
      { node := (n.node.delete cfg key version reading accepts).1
        lastReading := some reading
        foreign := raisedTombstone key version reading ++ n.foreign } := by
  constructor
  · intro k v hv
    simp only [Node.delete, Node.lastVersions_finish, Node.lastVersions_storeOrQueue] at hv
    exact (h.lastVersion_passed hv).next hlater
  · intro k e he
    cases Node.entry_of_entry_storeOrQueue he with
    | inl hold =>
      exact (h.entry_passed hold).imp (fun hp => hp.next hlater) (List.mem_append_right _)
    | inr hnew =>
      -- A tombstone above the reading is foreign from now on.
      by_cases hraised : Node.tombstoneVersion version reading = reading
      · exact .inl ⟨reading, rfl, Int64.le_of_eq (hnew.2.trans hraised)⟩
      · right
        rw [hnew.1, hnew.2]
        simp [raisedTombstone, hraised]

theorem Accounted.step {a : Action} (h : Accounted cfg n) (hstep : n.step cfg a = some m) :
    Accounted cfg m := by
  cases a with
  | set key item reading visit accepts =>
    simp only [ClockedNode.step] at hstep
    split at hstep <;> cases hstep
    -- The readings of the calls increase, so the version is the reading.
    exact h.set ‹_› key item visit accepts
  | delete key version reading accepts =>
    simp only [ClockedNode.step] at hstep
    split at hstep <;> cases hstep
    exact h.delete ‹_› key version accepts
  | applyOps clock ops =>
    cases hstep
    refine ⟨h.lastVersion_passed, fun he => ?_⟩
    cases Gossip.entry_of_entry_applyOps he with
    | inl hold => exact (h.entry_passed hold).imp_right (List.mem_append_right _)
    -- Only the versions of the batch are new.
    | inr hnew => exact .inr (List.mem_append_left _ hnew)
  -- The other steps store nothing new: they drain, read, evict or expire.
  | flush clock members accepts =>
    cases hstep
    exact ⟨h.lastVersion_passed, fun he => h.entry_passed (entry_of_entry_getSyncBuffer he)⟩
  | drain clock =>
    cases hstep
    exact h.of_entry_of_entry entry_of_entry_getSyncBuffer
  | read now key =>
    cases hstep
    exact h.of_entry_of_entry (removes_getNoCopy cfg.store now n.node.store key).entry_of_entry
  | runAsyncEviction =>
    cases hstep
    exact h.of_entry_of_entry (removes_runAsyncEviction cfg.store n.node.store).entry_of_entry
  | cleanExpired now =>
    cases hstep
    exact h.of_entry_of_entry (removes_cleanExpired cfg.store now n.node.store).entry_of_entry

theorem accounted_of_runs {as : List Action} (hrun : Runs (step cfg) {} as n) : Accounted cfg n :=
  hrun.invariant (fun _ _ _ h _ hstep => h.step hstep) (accounted_initial cfg)

/-! ### Acknowledged writes -/

/-- The store holds the item's value and expiry for the key under a version. -/
def HoldsItem (cfg : NodeConfig) (node : Node) (key : GoString) (item : StoredItem)
    (version : Int64) : Prop :=
  ∃ e, entry cfg.store node.store key = some e ∧ e.version = version ∧
    e.expireAt = item.expireAt ∧ Holds cfg.store.lz4 e item.value

/-- In every state a node can reach with increasing clock readings, a `Set` that returns
    nil has stored its item, if every foreign version of the key is below the reading. -/
theorem holdsItem_set_of_foreign_lt {as : List Action} (hrun : Runs (step cfg) {} as n)
    {key : GoString} {item : StoredItem} {reading : Int64} {visit : List GoString}
    {accepts : Nat → Bool} (hlater : later n.lastReading reading)
    (hforeign : ∀ v, (key, v) ∈ n.foreign → v < reading)
    (hnil : (n.node.set cfg key item reading visit accepts).2 = none) :
    HoldsItem cfg (n.node.set cfg key item reading visit accepts).1 key item
      (n.node.writer.nextVersion key reading) := by
  have haccounted := accounted_of_runs hrun
  -- Since the readings increase, the version is the reading itself.
  have hversion := haccounted.nextVersion_eq hlater key
  simp only [Node.set, Node.finish_snd, hversion] at hnil
  obtain ⟨hreplicas, hset⟩ := Node.storeOrQueue_snd_eq_none hnil
  -- Whatever survives the memory check was in the store before and is older.
  have hstores : setStores cfg.store n.node.store key (Node.versionedItem key item reading) := by
    obtain ⟨hkey, hroom⟩ := set_snd_eq_none_iff.mp hset
    simp only [setStores, decide_eq_true_eq]
    refine ⟨hkey, hroom, ?_⟩
    unfold MemStorage.accepts
    split
    · rfl
    · rename_i e he
      have hpassed := haccounted.entry_passed ((removes_makeRoom ..).entry_of_entry he)
      exact decide_eq_true (hpassed.elim (fun hp => hp.lt hlater) (hforeign _))
  refine ⟨prepareCompressedItem cfg.store (Node.versionedItem key item reading), ?_, ?_, rfl,
    holds_prepareCompressedItem cfg.store (Node.versionedItem key item reading)⟩
  · simp only [Node.set, hversion, Node.store_finish, Node.store_storeOrQueue, if_neg hreplicas]
    rw [(set_of_setStores hstores).2.entry_eq, if_pos rfl]
  · exact hversion.symm

/-- A node alone on its ring. -/
def solo : NodeConfig where
  nodeID := ascii "n1"
  store := oneShard
  ring := { hashHi := fun _ => 0, nodes := [⟨0, ascii "n1"⟩], sorted := by simp }

/-- An operation that stores `x` for the key `k` under version `v`. -/
def remoteOp (v : Int64) (x : String) : SyncOperation where
  key := ascii "k"
  opType := .set
  item := some (plainItem v x)

/-- A write after the clock has passed the version received. -/
theorem holdsItem_set_after_older_op :
    ∃ n, Runs (step solo) {} [.applyOps (fun _ => 0) [some (remoteOp 100 "a")]] n ∧
      HoldsItem solo (n.node.set solo (ascii "k") (plainItem 0 "b") 200 [] fun _ => true).1
        (ascii "k") (plainItem 0 "b") (n.node.writer.nextVersion (ascii "k") 200) := by
  have hrun : Runs (step solo) {} [.applyOps (fun _ => 0) [some (remoteOp 100 "a")]] _ :=
    runs_of_exec rfl
  refine ⟨_, hrun, holdsItem_set_of_foreign_lt hrun rfl ?_ (by decide)⟩
  intro v hv
  have hv' : v = 100 := by simpa [Gossip.versionsOf, remoteOp, plainItem] using hv
  subst hv'
  decide

/-- A write that the node acknowledges and drops: version 100 has arrived from a node
    whose clock is ahead, and the own clock reads 5. -/
theorem not_holdsItem_set_after_newer_op :
    ¬ ∀ (as : List Action) (n : ClockedNode), Runs (step solo) {} as n →
      ∀ key item reading visit accepts, later n.lastReading reading →
        (n.node.set solo key item reading visit accepts).2 = none →
        HoldsItem solo (n.node.set solo key item reading visit accepts).1 key item
          (n.node.writer.nextVersion key reading) := by
  intro hall
  have hrun : Runs (step solo) {} [.applyOps (fun _ => 0) [some (remoteOp 100 "a")]] _ :=
    runs_of_exec rfl
  obtain ⟨e, he, hversion, -⟩ := hall _ _ hrun (ascii "k") (plainItem 0 "b") 5 [] (fun _ => true)
    rfl (by decide)
  -- The store has kept what it had.
  have hkept : e = ⟨100, zeroTime, ascii "a", false, 1⟩ := by
    refine Option.some.inj (he.symm.trans ?_)
    decide
  subst hkept
  revert hversion
  decide

end ClockedNode

end GridKV
