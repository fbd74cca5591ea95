import GridKV.Spec.MemoryAccounting

/-!
# Does an accepted item respect the memory limit?

With background eviction on, which `New` sees to, the memory check of `Set` evicts at most five
entries, all of one shard, and lets the item pass if there was one to evict.  What the
eviction frees (`freedBytes`) and what storing the item then adds (`grownBytes`) are unrelated,
so the limit holds after a `Set` exactly where they happen to fit.
-/

namespace GridKV

open Go List

/-- The entries of a shard in the order in which eviction comes to them; a key in the list
    without an entry is passed over. -/
def Shard.byAge (shard : Shard) : List (GoString × CompressedItem) :=
  shard.lru.order.reverse.filterMap fun key => (shard.data.lookup key).map (key, ·)

namespace MemStorage

variable {cfg : StoreConfig} {s : MemStorage} {i : Nat} {key : GoString} {e : CompressedItem}
  {shard : Shard} {entries : List (GoString × CompressedItem)} {t : MemStorage} {item : StoredItem}

/-! ### The eviction loop -/

theorem byAge_of_back_eq_none (h : shard.lru.back = none) : shard.byAge = [] := by
  rw [ShardLRU.back, getLast?_eq_none_iff] at h
  rw [Shard.byAge, h]
  rfl

theorem order_of_back_eq_some {lru : ShardLRU} (h : lru.back = some key) :
    lru.order = lru.order.erase key ++ [key] := by
  obtain ⟨init, horder⟩ := getLast?_eq_some_iff.mp h
  have hfresh : key ∉ init := by
    have hnodup := lru.nodup
    rw [horder, nodup_append] at hnodup
    exact fun hmem => hnodup.2.2 key hmem key (mem_singleton_self key) rfl
  rw [horder, erase_append_right _ hfresh, erase_cons_head, append_nil]

/-- The last key of the list comes first. -/
theorem byAge_of_back_eq_some (h : shard.lru.back = some key) :
    shard.byAge = ((shard.data.lookup key).map (key, ·)).toList ++
      (shard.lru.order.erase key).reverse.filterMap fun k =>
        (shard.data.lookup k).map (k, ·) := by
  rw [Shard.byAge]
  conv_lhs => rw [order_of_back_eq_some h]
  rw [reverse_append, filterMap_append]
  cases hlookup : shard.data.lookup key <;> simp [hlookup]

theorem byAge_removeFromLRU (hback : (s.shards i).lru.back = some key)
    (hnone : (s.shards i).data.lookup key = none) :
    ((s.removeFromLRU i key).shards i).byAge = (s.shards i).byAge := by
  rw [byAge_of_back_eq_some hback, hnone, removeFromLRU, modifyShard_self, Shard.byAge,
    ShardLRU.order_remove]
  rfl

theorem data_evicted :
    (((s.removeFromLRU i key).eraseItem i key e).shards i).data =
      (s.shards i).data.erase key := by
  simp [removeFromLRU, eraseItem, addStats, erase, modifyShard]

theorem order_evicted :
    (((s.removeFromLRU i key).eraseItem i key e).shards i).lru.order =
      (s.shards i).lru.order.erase key := by
  simp [removeFromLRU, eraseItem, addStats, erase, modifyShard]

theorem byAge_eq_cons (hback : (s.shards i).lru.back = some key)
    (he : (s.shards i).data.lookup key = some e) :
    (s.shards i).byAge =
      (key, e) :: (((s.removeFromLRU i key).eraseItem i key e).shards i).byAge := by
  rw [byAge_of_back_eq_some hback, he, Shard.byAge, data_evicted, order_evicted]
  -- The entries of the other keys are still there.
  refine congrArg ((key, e) :: ·) (filterMap_congr fun k hk => ?_)
  have hne : k ≠ key := by
    rintro rfl
    exact (s.shards i).lru.nodup.not_mem_erase (mem_reverse.mp hk)
  rw [AList.lookup_erase_ne hne]

/-- The sizes of entries, added up. -/
def totalSize (entries : List (GoString × CompressedItem)) : Nat :=
  (entries.map fun entry => itemSize entry.1 entry.2).sum

/-- The oldest entries of shard `i` are removed, with their sizes, and no others. -/
structure Drops (i : Nat) (entries : List (GoString × CompressedItem)) (s t : MemStorage) :
    Prop where
  bytes : t.totals.bytes = s.totals.bytes - Int64.ofNat (totalSize entries)
  lookup : ∀ j k, (t.shards j).data.lookup k =
    if j = i ∧ k ∈ entries.map Prod.fst then none else (s.shards j).data.lookup k
  byAge : (s.shards i).byAge = entries ++ (t.shards i).byAge
  shards : ∀ j, j ≠ i → t.shards j = s.shards j

theorem Drops.refl (i : Nat) (s : MemStorage) : Drops i [] s s :=
  ⟨(Int64.sub_zero _).symm, fun j k => by simp, rfl, fun _ _ => rfl⟩

theorem Drops.of_removeFromLRU (hback : (s.shards i).lru.back = some key)
    (hnone : (s.shards i).data.lookup key = none) (h : Drops i entries (s.removeFromLRU i key) t) :
    Drops i entries s t where
  bytes := h.bytes
  lookup j k := by rw [h.lookup, lookup_removeFromLRU]
  byAge := by rw [← h.byAge, byAge_removeFromLRU hback hnone]
  shards j hj := (h.shards j hj).trans (modifyShard_of_ne s _ hj)

theorem Drops.cons (hback : (s.shards i).lru.back = some key)
    (he : (s.shards i).data.lookup key = some e)
    (h : Drops i entries ((s.removeFromLRU i key).eraseItem i key e) t) :
    Drops i ((key, e) :: entries) s t := by
  refine ⟨?_, fun j k => ?_, ?_, fun j hj => ?_⟩
  · rw [h.bytes]
    show s.totals.bytes + -calculateItemSize key e.value - _ = _
    have hsize : totalSize ((key, e) :: entries) =
        key.length + e.value.length + 176 + totalSize entries := by simp [totalSize, itemSize]
    rw [calculateItemSize_eq, hsize, Int64.ofNat_add _ (totalSize entries), ← Int64.sub_eq_add_neg,
      Int64.sub_sub]
  · rw [h.lookup, lookup_eraseItem, lookup_removeFromLRU]
    simp only [map_cons, mem_cons]
    grind
  · rw [byAge_eq_cons hback he, h.byAge, cons_append]
  · rw [h.shards j hj]
    simp only [eraseItem, addStats, erase, removeFromLRU, modifyShard, Function.update_of_ne hj]

/-- The loop removes what is oldest, until the batch is complete. -/
theorem drops_evictLoop (batchSize rounds evicted : Nat)
    (hrounds : (s.shards i).lru.order.length ≤ rounds) :
    (evictLoop i batchSize rounds s evicted).2 =
        evicted + ((s.shards i).byAge.take (batchSize - evicted)).length ∧
      Drops i ((s.shards i).byAge.take (batchSize - evicted)) s
        (evictLoop i batchSize rounds s evicted).1 := by
  -- Every round takes a key out of the list, so there are rounds enough.
  induction rounds generalizing s evicted with
  | zero =>
    have hnil : (s.shards i).byAge = [] := by
      rw [Shard.byAge, eq_nil_of_length_eq_zero (Nat.le_zero.mp hrounds)]
      rfl
    rw [hnil, take_nil]
    exact ⟨rfl, .refl i s⟩
  | succ rounds ih =>
    unfold evictLoop
    split
    · rename_i hroom
      split
      · rename_i hback
        rw [byAge_of_back_eq_none hback, take_nil]
        exact ⟨rfl, .refl i s⟩
      · rename_i key hback
        have hlength := congrArg List.length (order_of_back_eq_some hback)
        rw [length_append, length_singleton] at hlength
        split
        · -- The list has a key that is gone from the map.
          rename_i hnone
          have horder : ((s.removeFromLRU i key).shards i).lru.order =
              (s.shards i).lru.order.erase key := by
            rw [removeFromLRU, modifyShard_self, ShardLRU.order_remove]
          obtain ⟨hcount, hdrops⟩ := ih (s := s.removeFromLRU i key) evicted (by rw [horder]; omega)
          rw [byAge_removeFromLRU hback hnone] at hcount hdrops
          exact ⟨hcount, hdrops.of_removeFromLRU hback hnone⟩
        · rename_i e he
          obtain ⟨hcount, hdrops⟩ := ih (s := (s.removeFromLRU i key).eraseItem i key e)
            (evicted + 1) (by rw [order_evicted]; omega)
          have htake : (s.shards i).byAge.take (batchSize - evicted) = (key, e) ::
              (((s.removeFromLRU i key).eraseItem i key e).shards i).byAge.take
                (batchSize - (evicted + 1)) := by
            rw [byAge_eq_cons hback he, show batchSize - evicted = batchSize - (evicted + 1) + 1 by
              omega, take_succ_cons]
          rw [htake]
          refine ⟨?_, hdrops.cons hback he⟩
          rw [hcount, length_cons]
          omega
    · -- The batch is complete.
      rename_i hfull
      rw [Nat.sub_eq_zero_of_le (Nat.le_of_not_lt hfull), take_zero]
      exact ⟨rfl, .refl i s⟩

/-! ### The memory check -/

/-- `Set` sees an item of this size through without evicting, unless it passes both the
    threshold and the limit. -/
def overLimit (cfg : StoreConfig) (s : MemStorage) (size : Int64) : Bool :=
  let maxBytes := cfg.maxMemoryMB * 1024 * 1024
  s.totals.bytes + size > maxBytes * cfg.evictThreshold / 100 ∧ s.totals.bytes + size > maxBytes

/-- The shard whose turn it is. -/
def nextShard (cfg : StoreConfig) (s : MemStorage) : Nat :=
  ((s.evictShardIdx + 1) &&& cfg.shardMask).toNat

/-- The entries that make room for an item of this size. -/
def victims (cfg : StoreConfig) (s : MemStorage) (size : Int64) :
    List (GoString × CompressedItem) :=
  if overLimit cfg s size then (s.shards (nextShard cfg s)).byAge.take 5 else []

/-- The batch sizes `evictBatchLRU` works with. -/
def clampBatch (batchSize : Int) : Nat := (max 1 (min batchSize 100)).toNat

theorem drops_evictBatchLRU (cfg : StoreConfig) (s : MemStorage) (batchSize : Int) :
    (s.evictBatchLRU cfg batchSize).2 =
        ((s.shards (nextShard cfg s)).byAge.take (clampBatch batchSize)).length ∧
      Drops (nextShard cfg s) ((s.shards (nextShard cfg s)).byAge.take (clampBatch batchSize)) s
        (s.evictBatchLRU cfg batchSize).1 := by
  have hclamp : (if (if batchSize ≤ 0 then 1 else batchSize) > 100 then (100 : Int)
      else if batchSize ≤ 0 then 1 else batchSize).toNat = clampBatch batchSize := by
    unfold clampBatch
    split <;> split at * <;> omega
  have hloop := drops_evictLoop (s := { s with evictShardIdx := s.evictShardIdx + 1 })
    (i := nextShard cfg s) (clampBatch batchSize) _ 0 (Nat.le_refl _)
  rw [Nat.zero_add] at hloop
  unfold evictBatchLRU
  dsimp only
  rw [hclamp]
  exact ⟨hloop.1, hloop.2.bytes, hloop.2.lookup, hloop.2.byAge, hloop.2.shards⟩

/-- The memory check in the background mode: an item that is over the limit passes if there is
    anything to evict. -/
theorem checkAndEvict_spec (hasync : cfg.asyncEviction = true) (s : MemStorage) (size : Int64) :
    ((s.checkAndEvict cfg size).2 = none ↔ overLimit cfg s size → victims cfg s size ≠ []) ∧
      Drops (nextShard cfg s) (victims cfg s size) s (s.checkAndEvict cfg size).1 := by
  obtain ⟨hcount, hdrops⟩ := drops_evictBatchLRU cfg s 5
  have hfive : clampBatch 5 = 5 := rfl
  rw [hfive] at hcount hdrops
  unfold checkAndEvict victims overLimit
  dsimp only
  rw [if_pos hasync]
  split
  · rename_i hbelow
    simp only [gt_iff_lt, Int64.not_lt.mpr hbelow, false_and, decide_false, Bool.false_eq_true,
      if_false]
    exact ⟨by simp, .refl _ s⟩
  · rename_i habove
    split
    · -- Here the item passes if something is evicted, however little.
      rename_i hover
      simp only [gt_iff_lt, Int64.not_le.mp habove, hover, and_self, decide_true, if_true]
      rw [hcount]
      split
      · rename_i hnone
        exact ⟨by simpa using eq_nil_of_length_eq_zero hnone, hdrops⟩
      · rename_i hsome
        exact ⟨by simpa using fun hnil => hsome (by simp [hnil]), hdrops⟩
    · rename_i hunder
      simp only [hunder, and_false, decide_false, Bool.false_eq_true, if_false]
      exact ⟨by simp, .refl _ s⟩

/-! ### `Set` -/

/-- What the eviction before a `Set` frees. -/
def freedBytes (cfg : StoreConfig) (s : MemStorage) (key : GoString) (item : StoredItem) : Nat :=
  totalSize (victims cfg s (calculateItemSize key (prepareCompressedItem cfg item).value))

/-- The entry of the key that `Set` finds when it comes to store the item. -/
def survivor (cfg : StoreConfig) (s : MemStorage) (key : GoString) (item : StoredItem) :
    Option CompressedItem :=
  let size := calculateItemSize key (prepareCompressedItem cfg item).value
  if cfg.shardIndex key = nextShard cfg s ∧ key ∈ (victims cfg s size).map Prod.fst then none
  else entry cfg s key

/-- What storing the item adds: nothing for a version that is not newer, and the length of the
    key once more where an entry is replaced. -/
def grownBytes (cfg : StoreConfig) (s : MemStorage) (key : GoString) (item : StoredItem) : Int :=
  match survivor cfg s key item with
  | none => itemSize key (prepareCompressedItem cfg item)
  | some old =>
    if item.version ≤ old.version then 0
    else itemSize key (prepareCompressedItem cfg item) - itemSize [] old

theorem bytes_storeItem :
    (s.storeItemWithConflictResolution cfg key (prepareCompressedItem cfg item) item).totals.bytes =
      s.totals.bytes + Int64.ofInt (match entry cfg s key with
        | none => itemSize key (prepareCompressedItem cfg item)
        | some old =>
          if item.version ≤ old.version then 0
          else itemSize key (prepareCompressedItem cfg item) - itemSize [] old) := by
  unfold storeItemWithConflictResolution entry
  dsimp only
  cases (s.shards (cfg.shardIndex key)).data.lookup key with
  | none =>
    show s.totals.bytes + calculateItemSize key (prepareCompressedItem cfg item).value = _
    rw [calculateItemSize_eq]
    rfl
  | some old =>
    dsimp only [tryUpdateExistingKey]
    have hversion : (prepareCompressedItem cfg item).version = item.version := rfl
    rw [hversion]
    split
    · exact (Int64.add_zero _).symm
    · show s.totals.bytes + (calculateItemSize key (prepareCompressedItem cfg item).value +
        -calculateItemSize [] old.value) = _
      rw [calculateItemSize_eq, calculateItemSize_eq, ← Int64.sub_eq_add_neg, Int64.ofInt_sub]
      rfl

/-- `totalBytes` after a `Set` that returns nil. -/
theorem bytes_set (hasync : cfg.asyncEviction = true) (hlimit : 0 < cfg.maxMemoryMB)
    (h : (s.set cfg key (some item)).2 = none) :
    (s.set cfg key (some item)).1.totals.bytes =
      s.totals.bytes - Int64.ofNat (freedBytes cfg s key item) +
        Int64.ofInt (grownBytes cfg s key item) := by
  obtain ⟨hkey, hroom⟩ := set_snd_eq_none_iff.mp h
  have hcheck : s.makeRoom cfg key (prepareCompressedItem cfg item) =
      s.checkAndEvict cfg (calculateItemSize key (prepareCompressedItem cfg item).value) :=
    if_pos hlimit
  have hdrops := (checkAndEvict_spec hasync s
    (calculateItemSize key (prepareCompressedItem cfg item).value)).2
  rw [← hcheck] at hdrops
  -- The eviction may have removed the entry of the key itself.
  have hentry : entry cfg (s.makeRoom cfg key (prepareCompressedItem cfg item)).1 key =
      survivor cfg s key item := hdrops.lookup _ _
  rw [set_of_ne_nil hkey, hroom]
  show (storeItemWithConflictResolution _ _ _ _ _).totals.bytes = _
  rw [bytes_storeItem, hentry, hdrops.bytes]
  rfl

theorem toInt_bytes_set (hasync : cfg.asyncEviction = true) (hlimit : 0 < cfg.maxMemoryMB)
    (h : (s.set cfg key (some item)).2 = none) :
    (s.set cfg key (some item)).1.totals.bytes.toInt =
      (s.totals.bytes.toInt - freedBytes cfg s key item + grownBytes cfg s key item).bmod
        (2 ^ 64) := by
  rw [bytes_set hasync hlimit h, Int64.toInt_add, Int64.toInt_sub, Int64.toInt_ofInt,
    ← Int64.ofInt_eq_ofNat, Int64.toInt_ofInt, Int.sub_bmod_bmod, Int.add_bmod_bmod,
    Int.bmod_add_bmod]
  rfl

/-- What the eviction frees makes up for what the item adds, modulo the range of the
    counter. -/
def Fits (cfg : StoreConfig) (s : MemStorage) (key : GoString) (item : StoredItem) : Prop :=
  (s.totals.bytes.toInt - freedBytes cfg s key item + grownBytes cfg s key item).bmod (2 ^ 64) ≤
    cfg.maxMemoryMB.toInt * 2 ^ 20

end MemStorage

namespace MemConfig

open MemStorage

variable {config : MemConfig} {cpuCount : Int64} {hashLo : GoString → UInt64} {lz4 : LZ4}
  {cfg : StoreConfig} {s : MemStorage} {key : GoString} {item : StoredItem}

theorem new_eq_some (h : config.new cpuCount hashLo lz4 = some cfg) :
    cfg.asyncEviction = true ∧ 0 < cfg.maxMemoryMB := by
  unfold new at h
  split at h <;> cases h
  dsimp only
  refine ⟨by cases config.asyncEviction <;> rfl, ?_⟩
  split
  · decide
  · rename_i hpos
    exact Int64.not_le.mp hpos

/-- **Memory limit.**  In every state of a store made by `New`, an item that `Set` has accepted
    leaves `totalBytes` within the limit if and only if it fits. -/
theorem bytes_set_le_iff (hnew : config.new cpuCount hashLo lz4 = some cfg)
    (h : (s.set cfg key (some item)).2 = none) :
    (s.set cfg key (some item)).1.totals.bytes.toInt ≤ cfg.maxMemoryMB.toInt * 2 ^ 20 ↔
      Fits cfg s key item := by
  obtain ⟨hasync, hlimit⟩ := new_eq_some hnew
  rw [toInt_bytes_set hasync hlimit h, Fits]

/-! ### A store of one megabyte -/

/-- One shard of one megabyte, without compression. -/
def megabyte : MemConfig where
  maxMemoryMB := 1
  shardCount := 1
  compressionEnabled := false

def megabyteStore : StoreConfig where
  hashLo _ := 0
  shardMask := 0
  maxMemoryMB := 1
  compressionEnabled := false
  lz4 := shortInputLZ4

theorem new_megabyte : megabyte.new 1 (fun _ => 0) shortInputLZ4 = some megabyteStore := by
  rfl

/-- The store with one small item. -/
def holding : MemStorage :=
  (MemStorage.empty.set megabyteStore (ascii "a") (some (plainItem 1 "x"))).1

/-- A second small item. -/
theorem fits_small_item : Fits megabyteStore holding (ascii "b") (plainItem 1 "y") :=
  (bytes_set_le_iff new_megabyte (by decide)).mp (by decide)

/-- An item of as many bytes as the limit. -/
def large : StoredItem where
  version := 1
  expireAt := zeroTime
  value := replicate (2 ^ 20) 0
  key := []

theorem itemSize_large :
    itemSize (ascii "b") (prepareCompressedItem megabyteStore large) = 2 ^ 20 + 177 := by
  have hvalue : (prepareCompressedItem megabyteStore large).value = replicate (2 ^ 20) 0 := rfl
  rw [itemSize, hvalue, length_replicate]
  rfl

theorem size_large :
    calculateItemSize (ascii "b") (prepareCompressedItem megabyteStore large).value =
      Int64.ofNat (2 ^ 20 + 177) := by
  have hsize := itemSize_large
  rw [itemSize] at hsize
  rw [calculateItemSize_eq, hsize]

theorem victims_large :
    victims megabyteStore holding (Int64.ofNat (2 ^ 20 + 177)) =
      [(ascii "a", prepareCompressedItem megabyteStore (plainItem 1 "x"))] := by
  have hover : overLimit megabyteStore holding (Int64.ofNat (2 ^ 20 + 177)) = true := by decide
  rw [victims, if_pos hover]
  rfl

theorem set_large_snd : (holding.set megabyteStore (ascii "b") (some large)).2 = none := by
  refine set_snd_eq_none_iff.mpr ⟨by decide, ?_⟩
  rw [makeRoom, if_pos (by decide), size_large]
  refine (checkAndEvict_spec rfl _ _).1.mpr fun _ => ?_
  rw [victims_large]
  exact cons_ne_nil _ _

/-- The small item makes room for one that is larger than the limit. -/
theorem toInt_bytes_set_large :
    (holding.set megabyteStore (ascii "b") (some large)).1.totals.bytes.toInt = 2 ^ 20 + 177 := by
  have hbefore : holding.totals.bytes.toInt = 178 := by decide
  have hfreed : freedBytes megabyteStore holding (ascii "b") large = 178 := by
    rw [freedBytes, size_large, victims_large]
    rfl
  have hentry : entry megabyteStore holding (ascii "b") = none := rfl
  have hgrown : grownBytes megabyteStore holding (ascii "b") large = 2 ^ 20 + 177 := by
    have hnone : survivor megabyteStore holding (ascii "b") large = none := by
      simp only [survivor, hentry, ite_self]
    rw [grownBytes, hnone]
    dsimp only
    rw [itemSize_large]
    norm_num
  rw [toInt_bytes_set rfl (by decide) set_large_snd, hbefore, hfreed, hgrown]
  decide

/-- A store of one megabyte that holds a small item accepts one of a megabyte. -/
theorem exceeds_limit_after_large_item :
    ¬ ∀ (config : MemConfig) (cpuCount : Int64) (hashLo : GoString → UInt64) (lz4 : LZ4)
      (cfg : StoreConfig), config.new cpuCount hashLo lz4 = some cfg →
      ∀ (actions : List StoreAction) (key : GoString) (item : StoredItem),
        ((actions.foldl (AuditedStore.act cfg) {}).store.set cfg key (some item)).2 = none →
        ((actions.foldl (AuditedStore.act cfg) {}).store.set cfg key
          (some item)).1.totals.bytes.toInt ≤ cfg.maxMemoryMB.toInt * 2 ^ 20 := by
  intro hall
  have hreached : ([.set (ascii "a") (some (plainItem 1 "x"))].foldl
      (AuditedStore.act megabyteStore) {}).store = holding := rfl
  have hbytes := hall megabyte 1 (fun _ => 0) shortInputLZ4 megabyteStore new_megabyte
    [.set (ascii "a") (some (plainItem 1 "x"))] (ascii "b") large
  rw [hreached, toInt_bytes_set_large] at hbytes
  exact absurd (hbytes set_large_snd) (by decide)

end MemConfig

end GridKV
