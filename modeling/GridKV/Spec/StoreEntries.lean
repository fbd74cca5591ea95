import GridKV.Spec.Decompress
import GridKV.Spec.StoreMoves

/-!
# What the operations of the store do to its entries

Seen from outside the store is a map from keys to entries, `entry`, next to one queue of
pending operations for each shard.  Eviction, expiry, reads and memory checks only take
entries away (`Removes`); `Set` does that and then at most stores one entry and queues
one operation (`set_cases`).  The rest of the development uses these facts and not the
bodies of the store's methods.
-/

namespace GridKV

open Go

namespace MemStorage

variable {cfg : StoreConfig} {s t u : MemStorage} (i : Nat) {f : Shard → Shard} {version : Int64}
  {item : StoredItem} (d : Counters) {e : CompressedItem} {x : Bytes} (k key : GoString) (j : Nat)

/-- The queue of pending operations of a shard. -/
def buffer (s : MemStorage) (i : Nat) : RingBuffer SyncOperation syncCapacity :=
  (s.shards i).syncBuffer

/-! ### The primitive updates -/

theorem entry_modifyShard {i : Nat} (h : (f (s.shards i)).data = (s.shards i).data) :
    entry cfg (s.modifyShard i f) key = entry cfg s key := by
  by_cases hi : cfg.shardIndex key = i
  · simp [entry, hi, modifyShard_self, h]
  · simp [entry, modifyShard_of_ne _ _ hi]

theorem buffer_modifyShard {i : Nat} (h : (f (s.shards i)).syncBuffer = (s.shards i).syncBuffer) :
    buffer (s.modifyShard i f) j = buffer s j := by
  by_cases hj : j = i
  · subst hj; simp [buffer, modifyShard_self, h]
  · simp [buffer, modifyShard_of_ne _ _ hj]

@[simp] theorem entry_addStats : entry cfg (s.addStats i d) key = entry cfg s key := by
  exact entry_modifyShard (s := s) (i := i)
    (f := fun shard => { shard with counters := shard.counters.add d }) key rfl

@[simp] theorem entry_touchLRU :
    entry cfg (s.touchLRU i k) key = entry cfg s key := entry_modifyShard key rfl

@[simp] theorem entry_removeFromLRU :
    entry cfg (s.removeFromLRU i k) key = entry cfg s key := entry_modifyShard key rfl

@[simp] theorem entry_addToSyncBuffer (opType : OpType) (item : Option StoredItem)
    (key : GoString) : entry cfg (s.addToSyncBuffer i k opType item) key = entry cfg s key := by
  unfold addToSyncBuffer
  exact entry_modifyShard key rfl

@[simp] theorem entry_drainShard :
    entry cfg (s.drainShard i) key = entry cfg s key := entry_modifyShard key rfl

@[simp] theorem buffer_addStats : buffer (s.addStats i d) j = buffer s j := by
  exact buffer_modifyShard (s := s) (i := i)
    (f := fun shard => { shard with counters := shard.counters.add d }) j rfl

@[simp] theorem buffer_touchLRU : buffer (s.touchLRU i k) j = buffer s j := buffer_modifyShard j rfl

@[simp] theorem buffer_removeFromLRU :
    buffer (s.removeFromLRU i k) j = buffer s j := buffer_modifyShard j rfl

@[simp] theorem buffer_store (e : CompressedItem) (j : Nat) :
    buffer (s.store i k e) j = buffer s j := buffer_modifyShard j rfl

@[simp] theorem buffer_erase : buffer (s.erase i k) j = buffer s j := buffer_modifyShard j rfl

theorem buffer_addToSyncBuffer (opType : OpType) (item : Option StoredItem) (j : Nat) :
    buffer (s.addToSyncBuffer i key opType item) j =
      if j = i then (buffer s i).push
        { key, opType, item := item.map fun item => { item with key := key, value := [] } }
      else buffer s j := by
  split
  · subst j; simp [buffer, addToSyncBuffer, modifyShard_self]
  · simp [buffer, addToSyncBuffer, modifyShard_of_ne, *]

theorem buffer_drainShard :
    buffer (s.drainShard i) j = if j = i then (buffer s i).drain.2 else buffer s j := by
  split
  · subst j; simp [buffer, drainShard, modifyShard_self]
  · simp [buffer, drainShard, modifyShard_of_ne, *]

theorem entry_store (e : CompressedItem) (k : GoString) :
    entry cfg (s.store (cfg.shardIndex key) key e) k = if k = key then some e else entry cfg s k := by
  by_cases hi : cfg.shardIndex k = cfg.shardIndex key
  · simp only [entry, store, hi, modifyShard_self]
    split
    · subst k; exact AList.lookup_insert _
    · exact AList.lookup_insert_ne ‹_›
  · -- A key of another shard is another key.
    have hne : k ≠ key := fun h => hi (h ▸ rfl)
    simp only [entry, store, modifyShard_of_ne _ _ hi, if_neg hne]

/-- Deleting from the map of a shard can only touch the deleted key. -/
theorem entry_erase (k : GoString) :
    entry cfg (s.erase i key) k =
      if k = key ∧ cfg.shardIndex k = i then none else entry cfg s k := by
  by_cases hi : cfg.shardIndex k = i
  · simp only [entry, erase, hi, modifyShard_self, and_true]
    split
    · subst k; exact AList.lookup_erase _ _
    · exact AList.lookup_erase_ne ‹_›
  · simp only [entry, erase, modifyShard_of_ne _ _ hi, hi, and_false, if_false]

/-! ### Operations that only take entries away -/

/-- `t` has no entry that `s` does not have, and the same pending operations. -/
structure Removes (cfg : StoreConfig) (s t : MemStorage) : Prop where
  entry_of_entry : ∀ {k e}, entry cfg t k = some e → entry cfg s k = some e
  buffer_eq : ∀ i, buffer t i = buffer s i

namespace Removes

theorem refl (cfg : StoreConfig) (s : MemStorage) : Removes cfg s s := ⟨id, fun _ => rfl⟩

theorem trans (h : Removes cfg s t) (h' : Removes cfg t u) : Removes cfg s u :=
  ⟨fun hu => h.entry_of_entry (h'.entry_of_entry hu),
    fun i => (h'.buffer_eq i).trans (h.buffer_eq i)⟩

end Removes

theorem removes_touchLRU (cfg : StoreConfig) (s : MemStorage) (i : Nat) (key : GoString) :
    Removes cfg s (s.touchLRU i key) := ⟨by simp, by simp⟩

theorem removes_removeFromLRU (cfg : StoreConfig) (s : MemStorage) (i : Nat) (key : GoString) :
    Removes cfg s (s.removeFromLRU i key) := ⟨by simp, by simp⟩

theorem removes_addStats (cfg : StoreConfig) (s : MemStorage) (i : Nat) (d : Counters) :
    Removes cfg s (s.addStats i d) := ⟨by simp, by simp⟩

theorem removes_erase (cfg : StoreConfig) (s : MemStorage) (i : Nat) (key : GoString) :
    Removes cfg s (s.erase i key) := by
  refine ⟨fun {k e} h => ?_, by simp⟩
  rw [entry_erase] at h
  split at h
  · exact nomatch h
  · exact h

theorem removes_eraseItem (cfg : StoreConfig) (s : MemStorage) (i : Nat) (key : GoString)
    (e : CompressedItem) : Removes cfg s (s.eraseItem i key e) :=
  (removes_erase cfg s i key).trans (removes_addStats cfg _ i _)

theorem removes_move {a : StoreMove} (ha : a.removes) (h : move cfg s a = some t) :
    Removes cfg s t := by
  cases moved_of_move h with
  | drop i key e =>
    exact (removes_eraseItem cfg s i key e).trans (removes_removeFromLRU cfg _ i key)
  | expire key =>
    exact ((removes_erase cfg s _ key).trans (removes_addStats cfg _ _ _)).trans
      (removes_removeFromLRU cfg _ _ key)
  | forget i key => exact removes_erase cfg s i key
  | touch key => exact removes_touchLRU cfg s _ key
  | unlist i key => exact removes_removeFromLRU cfg s i key
  | rotate idx => exact ⟨id, fun _ => rfl⟩
  | install | queue | clear => cases ha

theorem removes_of_path (h : Path cfg (fun _ a => a.removes) s t) : Removes cfg s t :=
  h.invariant (fun _ _ _ hs ha hmove => hs.trans (removes_move ha hmove)) (.refl cfg s)

theorem removes_evictBatchLRU (cfg : StoreConfig) (s : MemStorage) (batchSize : Int) :
    Removes cfg s (s.evictBatchLRU cfg batchSize).1 :=
  removes_of_path (path_evictBatchLRU (fun _ _ => StoreMove.removes_of_evicts) s batchSize)

theorem removes_runAsyncEviction (cfg : StoreConfig) (s : MemStorage) :
    Removes cfg s (s.runAsyncEviction cfg) :=
  removes_of_path (path_runAsyncEviction (fun _ _ => StoreMove.removes_of_evicts) s)

theorem removes_makeRoom (cfg : StoreConfig) (s : MemStorage) (key : GoString)
    (compItem : CompressedItem) : Removes cfg s (s.makeRoom cfg key compItem).1 :=
  removes_of_path (path_makeRoom (fun _ _ => StoreMove.removes_of_evicts) s key compItem)

theorem removes_cleanExpired (cfg : StoreConfig) (now : Time) (s : MemStorage) :
    Removes cfg s (s.cleanExpired cfg now) :=
  removes_of_path (path_cleanExpired (fun _ _ => StoreMove.removes_of_evicts) now s)

theorem removes_getNoCopy (cfg : StoreConfig) (now : Time) (s : MemStorage) (key : GoString) :
    Removes cfg s (s.getNoCopy cfg now key).1 :=
  removes_of_path (path_getNoCopy (fun _ _ => rfl) now s key fun _ _ _ => rfl).1

/-! ### Stored forms of a value -/

/-- The entry is the stored form of the bytes `x`: the bytes themselves, or a block they
    were compressed to. -/
def Holds (lz4 : LZ4) (e : CompressedItem) (x : Bytes) : Prop :=
  e.origSize = x.length ∧
    if e.compressed then (∃ dst, lz4.compressBlock x dst = some e.value) ∧ e.value ≠ []
    else e.value = x

/-- The entry is not a block that outgrows the decompressor. -/
def Readable (e : CompressedItem) : Prop := e.compressed → e.origSize ≤ maxDecompressBuffer

theorem compress_eq_some {lz4 : LZ4} {cap : CompressCap} {data block : Bytes} {threshold : Int}
    (h : compress lz4 cap data threshold = some block) :
    (∃ dst, lz4.compressBlock data dst = some block) ∧ block ≠ [] := by
  unfold compress at h
  split at h
  · cases h
  · split at h
    · cases h
    · rename_i hblock
      split at h
      · cases h
      · rename_i hne
        split at h <;> cases h
        exact ⟨⟨_, hblock⟩, by simpa using hne⟩

theorem holds_prepareCompressedItem (cfg : StoreConfig) (item : StoredItem) :
    Holds cfg.lz4 (prepareCompressedItem cfg item) item.value := by
  refine ⟨rfl, ?_⟩
  simp only [prepareCompressedItem]
  split
  · cases h : compress cfg.lz4 smallCompressCap item.value cfg.compressionThresh with
    | none => simp
    | some block => simpa using compress_eq_some h
  · simp

/-- An entry gives back the bytes it holds, unless they are a block that outgrows the
    decompressor. -/
theorem valueOf_eq_of_holds (hlz4 : cfg.lz4.Lawful) (hholds : Holds cfg.lz4 e x) :
    valueOf cfg e = if e.compressed ∧ maxDecompressBuffer < x.length then none else some x := by
  obtain ⟨hsize, hform⟩ := hholds
  unfold valueOf
  split at hform <;> rename_i hcompressed
  · obtain ⟨⟨dst, hblock⟩, hne⟩ := hform
    rw [if_pos hcompressed, decompressValue, decompressTo_origSize hlz4 hblock hne]
    · simp only [hcompressed, true_and, ← Nat.not_le, ite_not]
    · split <;> split <;> omega
  · rw [if_neg hcompressed, if_neg (fun h => hcompressed h.1), hform]

/-- A readable entry gives back the bytes it holds. -/
theorem valueOf_of_holds (hlz4 : cfg.lz4.Lawful) (hholds : Holds cfg.lz4 e x) (hread : Readable e) :
    valueOf cfg e = some x := by
  rw [valueOf_eq_of_holds hlz4 hholds, if_neg]
  rintro ⟨hcompressed, hlong⟩
  have hle := hread hcompressed
  rw [hholds.1] at hle
  exact absurd hlong (Nat.not_lt.mpr hle)

/-! ### `Set` and `Delete` -/

/-- The store holds no version of the key that is as new as `version`. -/
def accepts (cfg : StoreConfig) (s : MemStorage) (key : GoString) (version : Int64) : Bool :=
  match entry cfg s key with
  | none => true
  | some e => e.version < version

/-- A call of `Set` that stores its item: it passes the checks, and once room has been
    made the store holds nothing as new. -/
def setStores (cfg : StoreConfig) (s : MemStorage) (key : GoString) (item : StoredItem) : Bool :=
  let room := s.makeRoom cfg key (prepareCompressedItem cfg item)
  key ≠ [] ∧ room.2 = none ∧ accepts cfg room.1 key item.version

/-- `t` is `s` with the item stored and its operation queued. -/
structure Installs (cfg : StoreConfig) (s t : MemStorage) (key : GoString) (item : StoredItem) :
    Prop where
  entry_eq : ∀ k, entry cfg t k =
    if k = key then some (prepareCompressedItem cfg item) else entry cfg s k
  buffer_eq : ∀ i, buffer t i =
    if i = cfg.shardIndex key then (buffer s i).push
      { key, opType := .set, item := some { item with key := key, value := [] } }
    else buffer s i

theorem installs_of_accepts {key : GoString} (h : accepts cfg s key item.version) :
    Installs cfg s (s.storeItemWithConflictResolution cfg key (prepareCompressedItem cfg item) item)
      key item := by
  have hparts : ∀ d, Installs cfg s ((((s.store (cfg.shardIndex key) key
      (prepareCompressedItem cfg item)).addStats (cfg.shardIndex key) d).touchLRU
        (cfg.shardIndex key) key).addToSyncBuffer (cfg.shardIndex key) key .set (some item))
      key item := by
    intro d
    constructor
    · intro k
      simp only [entry_addToSyncBuffer, entry_touchLRU, entry_addStats, entry_store]
    · intro i
      rw [buffer_addToSyncBuffer]
      simp only [buffer_touchLRU, buffer_addStats, buffer_store, Option.map_some]
      split
      · rename_i hi; rw [hi]
      · rfl
  unfold accepts entry at h
  cases hentry : (s.shards (cfg.shardIndex key)).data.lookup key with
  | none =>
    simp only [storeItemWithConflictResolution, hentry]
    exact hparts _
  | some existing =>
    simp only [hentry, decide_eq_true_eq] at h
    have hnew : ¬ (prepareCompressedItem cfg item).version ≤ existing.version :=
      fun hle => Int64.not_lt.mpr hle h
    simp only [storeItemWithConflictResolution, hentry, tryUpdateExistingKey, if_neg hnew]
    exact hparts _

/-- An item that is not newer than the entry changes nothing. -/
theorem storeItem_of_not_accepts {key : GoString} (h : ¬ accepts cfg s key item.version) :
    s.storeItemWithConflictResolution cfg key (prepareCompressedItem cfg item) item = s := by
  unfold accepts entry at h
  cases hentry : (s.shards (cfg.shardIndex key)).data.lookup key with
  | none => simp [hentry] at h
  | some existing =>
    simp only [hentry, decide_eq_true_eq] at h
    have hold : (prepareCompressedItem cfg item).version ≤ existing.version := Int64.not_lt.mp h
    simp only [storeItemWithConflictResolution, hentry, tryUpdateExistingKey, if_pos hold]

theorem set_of_ne_nil {key : GoString} (hkey : key ≠ []) :
    s.set cfg key (some item) =
      match (s.makeRoom cfg key (prepareCompressedItem cfg item)).2 with
      | some err => ((s.makeRoom cfg key (prepareCompressedItem cfg item)).1, some err)
      | none => ((s.makeRoom cfg key (prepareCompressedItem cfg item)).1.storeItemWithConflictResolution
          cfg key (prepareCompressedItem cfg item) item, none) := by
  unfold set
  rw [if_neg hkey]
  cases hroom : s.makeRoom cfg key (prepareCompressedItem cfg item) with
  | mk room err => cases err <;> simp only [hroom]

/-- `Set` of an item returns nil exactly when the key is not empty and there is room. -/
theorem set_snd_eq_none_iff {key : GoString} :
    (s.set cfg key (some item)).2 = none ↔
      key ≠ [] ∧ (s.makeRoom cfg key (prepareCompressedItem cfg item)).2 = none := by
  by_cases hkey : key = []
  · simp [set, hkey]
  · rw [set_of_ne_nil hkey]
    cases (s.makeRoom cfg key (prepareCompressedItem cfg item)).2 <;> simp [hkey]

theorem set_of_setStores {key : GoString} (h : setStores cfg s key item) :
    (s.set cfg key (some item)).2 = none ∧
      Installs cfg (s.makeRoom cfg key (prepareCompressedItem cfg item)).1
        (s.set cfg key (some item)).1 key item := by
  simp only [setStores, decide_eq_true_eq] at h
  obtain ⟨hkey, hroom, haccepts⟩ := h
  rw [set_of_ne_nil hkey, hroom]
  exact ⟨rfl, installs_of_accepts haccepts⟩

/-- A `Set` of an item that does not store it at most makes room. -/
theorem removes_set_of_not_setStores {key : GoString} (h : ¬ setStores cfg s key item) :
    Removes cfg s (s.set cfg key (some item)).1 := by
  have hremoves := removes_makeRoom cfg s key (prepareCompressedItem cfg item)
  by_cases hkey : key = []
  · simpa [set, hkey] using Removes.refl cfg s
  · rw [set_of_ne_nil hkey]
    cases hroom : (s.makeRoom cfg key (prepareCompressedItem cfg item)).2 with
    | some err => exact hremoves
    | none =>
      have hold : ¬ accepts cfg (s.makeRoom cfg key (prepareCompressedItem cfg item)).1 key
          item.version := by
        simpa [setStores, hkey, hroom] using h
      simpa only [storeItem_of_not_accepts hold] using hremoves

/-- Whatever `Set` answers, an entry found afterwards was there before or is the item. -/
theorem entry_of_entry_set {key k : GoString}
    (h : entry cfg (s.set cfg key (some item)).1 k = some e) :
    entry cfg s k = some e ∨ k = key ∧ e = prepareCompressedItem cfg item := by
  by_cases hstores : setStores cfg s key item
  · rw [(set_of_setStores hstores).2.entry_eq] at h
    split at h
    · exact .inr ⟨‹_›, (Option.some.inj h).symm⟩
    · exact .inl ((removes_makeRoom ..).entry_of_entry h)
  · exact .inl ((removes_set_of_not_setStores hstores).entry_of_entry h)

theorem entry_of_entry_delete {key : GoString} {k : GoString}
    (h : entry cfg (s.delete cfg key version).1 k = some e) : entry cfg s k = some e := by
  unfold delete at h
  split at h
  · exact h
  · simp only at h
    split at h
    · exact h
    · split at h
      · exact h
      · rw [entry_addToSyncBuffer, entry_removeFromLRU] at h
        exact (removes_eraseItem cfg s _ key _).entry_of_entry h

/-- `Delete` queues at most one operation, without an item. -/
theorem mem_buffer_delete {key : GoString} {i : Nat} {op : SyncOperation}
    (h : op ∈ (buffer (s.delete cfg key version).1 i).toList) :
    op = { key, opType := .delete, item := none } ∨ op ∈ (buffer s i).toList := by
  unfold delete at h
  split at h
  · exact .inr h
  · simp only at h
    split at h
    · exact .inr h
    · split at h
      · exact .inr h
      · rw [buffer_addToSyncBuffer] at h
        simp only [buffer_removeFromLRU, (removes_eraseItem cfg s _ key _).buffer_eq,
          Option.map_none] at h
        split at h
        · rename_i hi
          rw [hi]
          exact RingBuffer.eq_or_mem_of_mem_toList_push h
        · exact .inr h

end MemStorage

/-! ### A small store -/

/-- A store with one shard, on a machine whose values are all short. -/
def oneShard : StoreConfig where
  hashLo _ := 0
  shardMask := 0
  lz4 := shortInputLZ4

/-- A value `x` under version `v` that never expires. -/
def plainItem (v : Int64) (x : String) : StoredItem where
  version := v
  expireAt := zeroTime
  value := ascii x
  key := []

end GridKV
