import GridKV.Spec.HonestCounters
import GridKV.Spec.RecencyOrder
import GridKV.Spec.RejectedWrites

/-!
# Are memory errors genuine?

`evictBatchLRU` looks at one shard, the one whose turn it is.  Its callers take a batch of 0 for a
sign that there is nothing left to evict anywhere: `Set` gives up with `ErrMemoryLimit`, and the
background loop stops above its target.  They are right exactly where the shard whose turn it is
is not empty, or all of them are (`memory_errors_genuine_iff`).
-/

namespace GridKV

open Go Run List

namespace MemStorage

variable {cfg : StoreConfig} {s t : MemStorage} {i m n : Nat} {key : GoString} {item : StoredItem}

/-! ### Stores without keys -/

/-- No shard holds any key. -/
def Vacant (cfg : StoreConfig) (s : MemStorage) : Prop :=
  ∀ i, i < cfg.shardCount → (s.shards i).data.entries = []

theorem vacant_iff : Vacant cfg s ↔ stored cfg s = 0 := by
  rw [stored, Finset.sum_eq_zero_iff]
  simp only [Finset.mem_range, length_eq_zero_iff]
  rfl

/-- If the shard whose turn it is holds no key, then no shard does. -/
def TurnTells (cfg : StoreConfig) (s : MemStorage) : Prop :=
  (s.shards (nextShard cfg s)).data.entries = [] → Vacant cfg s

/-- What a batch evicts is no longer stored. -/
theorem stored_evictLoop (hi : i < cfg.shardCount) (batchSize rounds : Nat) (s : MemStorage)
    (evicted : Nat) :
    stored cfg (evictLoop i batchSize rounds s evicted).1 +
      (evictLoop i batchSize rounds s evicted).2 = stored cfg s + evicted := by
  induction rounds generalizing s evicted with
  | zero => rfl
  | succ rounds ih =>
    unfold evictLoop
    split
    · split
      · rfl
      · rename_i key _
        split
        · rw [ih, stored_eq_weight, stored_eq_weight, weight_removeFromLRU]
        · rename_i e he
          have hlookup : ((s.removeFromLRU i key).shards i).data.lookup key = some e := by
            rwa [lookup_removeFromLRU]
          have herase := weight_erase (w := fun _ _ => 1) hi hlookup
          rw [weight_removeFromLRU] at herase
          rw [ih, stored_eq_weight, stored_eq_weight, eraseItem, weight_addStats]
          omega
    · rfl

theorem stored_evictBatchLRU (cfg : StoreConfig) (s : MemStorage) (batchSize : Int) :
    stored cfg (s.evictBatchLRU cfg batchSize).1 + (s.evictBatchLRU cfg batchSize).2 =
      stored cfg s :=
  stored_evictLoop (and_shardMask_lt cfg _) _ _ { s with evictShardIdx := s.evictShardIdx + 1 } 0

theorem byAge_eq_nil_iff (hlinked : Linked cfg s) :
    (s.shards i).byAge = [] ↔ (s.shards i).data.entries = [] := by
  rw [← length_eq_zero_iff, length_byAge hlinked, length_eq_zero_iff]

/-- A batch evicts nothing exactly if the shard whose turn it is holds no key. -/
theorem evictBatchLRU_snd_eq_zero_iff (hlinked : Linked cfg s) (batchSize : Int) :
    (s.evictBatchLRU cfg batchSize).2 = 0 ↔
      (s.shards (nextShard cfg s)).data.entries = [] := by
  have hclamp : clampBatch batchSize ≠ 0 := by
    unfold clampBatch
    omega
  rw [(drops_evictBatchLRU cfg s batchSize).1, length_eq_zero_iff, take_eq_nil_iff,
    or_iff_right hclamp, byAge_eq_nil_iff hlinked]

/-! ### `Set` -/

theorem hasRoom_iff (hlinked : Linked cfg s) :
    HasRoom cfg s key item ↔ (overLimit cfg s (storedSize cfg key item) →
      (s.shards (nextShard cfg s)).data.entries ≠ []) := by
  refine imp_congr_right fun hover => ?_
  rw [victims, if_pos hover, ne_eq, take_eq_nil_iff, or_iff_right (by decide),
    byAge_eq_nil_iff hlinked]

/-- `ErrMemoryLimit` means that the shard whose turn it is holds no key. -/
theorem set_memoryLimit_genuine_iff (hasync : cfg.asyncEviction = true)
    (hlimit : 0 < cfg.maxMemoryMB) (hlinked : Linked cfg s) (key : GoString) (item : StoredItem) :
    ((s.set cfg key (some item)).2 = some .memoryLimit → Vacant cfg s) ↔
      (key ≠ [] → overLimit cfg s (storedSize cfg key item) → TurnTells cfg s) := by
  rw [set_snd_eq_memoryLimit_iff hasync hlimit, hasRoom_iff hlinked, TurnTells]
  simp only [Classical.not_imp, not_not, ne_eq, and_imp]

/-! ### The background loop -/

/-- The store after `n` batches. -/
def batches (cfg : StoreConfig) (s : MemStorage) : Nat → MemStorage
  | 0 => s
  | n + 1 => ((batches cfg s n).evictBatchLRU cfg cfg.evictBatchSize).1

/-- The total that starts the background eviction, in bytes. -/
def thresholdBytes (cfg : StoreConfig) : Int64 :=
  cfg.maxMemoryMB * 1024 * 1024 * cfg.evictThreshold / 100

/-- The total that the background eviction aims at, in bytes. -/
def targetBytes (cfg : StoreConfig) : Int64 :=
  cfg.maxMemoryMB * 1024 * 1024 * cfg.evictTarget / 100

/-- `maxEvictions` of the background eviction. -/
def maxEvictions (cfg : StoreConfig) : Int := cfg.evictBatchSize * 10

/-- After `n` batches the total is above the target, and fewer than `limit` entries have been
    evicted. -/
def Continues (cfg : StoreConfig) (limit : Int) (s : MemStorage) (n : Nat) : Prop :=
  targetBytes cfg < (batches cfg s n).totals.bytes ∧
    (stored cfg s : Int) - stored cfg (batches cfg s n) < limit

theorem batches_succ_comm (cfg : StoreConfig) (s : MemStorage) (n : Nat) :
    batches cfg (s.evictBatchLRU cfg cfg.evictBatchSize).1 n = batches cfg s (n + 1) := by
  induction n with
  | zero => rfl
  | succ n ih => rw [batches, ih]; rfl

theorem linked_batches (hlinked : Linked cfg s) (n : Nat) : Linked cfg (batches cfg s n) := by
  induction n with
  | zero => exact hlinked
  | succ n ih =>
    exact ih.of_path (path_evictBatchLRU (P := fun _ _ => True) (fun _ _ _ => trivial)
      _ cfg.evictBatchSize)

theorem stored_batches_le (cfg : StoreConfig) (s : MemStorage) (hmn : m ≤ n) :
    stored cfg (batches cfg s n) ≤ stored cfg (batches cfg s m) := by
  induction n, hmn using Nat.le_induction with
  | base => exact Nat.le_refl _
  | succ n _ ih =>
    have hbatch := stored_evictBatchLRU cfg (batches cfg s n) cfg.evictBatchSize
    rw [batches]
    omega

/-- Where the loop stops: before a batch that is not needed or not allowed, or after one that has
    evicted nothing. -/
theorem evictWhile_stops (cfg : StoreConfig) (limit : Int) (rounds : Nat) (s : MemStorage)
    (evicted : Int) (hrounds : limit ≤ evicted + rounds) :
    ∃ n, (∀ m < n, Continues cfg (limit - evicted) s m ∧
        ((batches cfg s m).evictBatchLRU cfg cfg.evictBatchSize).2 ≠ 0) ∧
      ((evictWhile cfg (fun current => current > targetBytes cfg) limit rounds s s.totals.bytes
            evicted).1 = batches cfg s n ∧ ¬ Continues cfg (limit - evicted) s n ∨
        (evictWhile cfg (fun current => current > targetBytes cfg) limit rounds s s.totals.bytes
            evicted).1 = batches cfg s (n + 1) ∧ Continues cfg (limit - evicted) s n ∧
          ((batches cfg s n).evictBatchLRU cfg cfg.evictBatchSize).2 = 0) := by
  -- Every round but the last evicts something, so there are rounds enough.
  induction rounds generalizing s evicted with
  | zero =>
    refine ⟨0, fun m hm => absurd hm (Nat.not_lt_zero m), .inl ⟨rfl, fun hcont => ?_⟩⟩
    have hfew := hcont.2
    rw [batches] at hfew
    omega
  | succ rounds ih =>
    have hfirst : Continues cfg (limit - evicted) s 0 ↔
        s.totals.bytes > targetBytes cfg ∧ evicted < limit := by
      rw [Continues, batches]
      refine and_congr_right fun _ => ?_
      omega
    have hcount := stored_evictBatchLRU cfg s cfg.evictBatchSize
    unfold evictWhile
    simp only [decide_eq_true_eq]
    split
    · rename_i hcont
      split
      · rename_i hnone
        exact ⟨0, fun m hm => absurd hm (Nat.not_lt_zero m), .inr ⟨rfl, hfirst.mpr hcont, hnone⟩⟩
      · rename_i hsome
        -- The rest of the loop is a loop that begins one batch later.
        obtain ⟨n, hbefore, hend⟩ := ih (s.evictBatchLRU cfg cfg.evictBatchSize).1
          (evicted + (s.evictBatchLRU cfg cfg.evictBatchSize).2) (by push_cast at hrounds; omega)
        have hshift : ∀ m, Continues cfg
            (limit - (evicted + (s.evictBatchLRU cfg cfg.evictBatchSize).2))
              (s.evictBatchLRU cfg cfg.evictBatchSize).1 m ↔
            Continues cfg (limit - evicted) s (m + 1) := by
          intro m
          rw [Continues, Continues, batches_succ_comm]
          refine and_congr_right fun _ => ?_
          omega
        refine ⟨n + 1, fun m hm => ?_, ?_⟩
        · cases m with
          | zero => exact ⟨hfirst.mpr hcont, hsome⟩
          | succ m =>
            obtain ⟨hcontinues, hne⟩ := hbefore m (Nat.lt_of_succ_lt_succ hm)
            rw [batches_succ_comm] at hne
            exact ⟨(hshift m).mp hcontinues, hne⟩
        · rw [batches_succ_comm, batches_succ_comm, hshift] at hend
          exact hend
    · rename_i hstop
      exact ⟨0, fun m hm => absurd hm (Nat.not_lt_zero m), .inl ⟨rfl, fun hcont =>
        hstop (hfirst.mp hcont)⟩⟩

/-- An eviction that has begun stops above its target, with fewer evictions than it may make. -/
def StopsShort (cfg : StoreConfig) (s : MemStorage) : Prop :=
  thresholdBytes cfg < s.totals.bytes ∧
    targetBytes cfg < (s.runAsyncEviction cfg).totals.bytes ∧
    (stored cfg s : Int) - stored cfg (s.runAsyncEviction cfg) < maxEvictions cfg

/-- The loop is still at work after `n` batches. -/
def ComesTo (cfg : StoreConfig) (s : MemStorage) (n : Nat) : Prop :=
  thresholdBytes cfg < s.totals.bytes ∧ ∀ m ≤ n, Continues cfg (maxEvictions cfg) s m

theorem runAsyncEviction_eq (hlimit : 0 < cfg.maxMemoryMB)
    (habove : thresholdBytes cfg < s.totals.bytes) :
    s.runAsyncEviction cfg = (evictWhile cfg (fun current => current > targetBytes cfg)
      (maxEvictions cfg) (maxEvictions cfg).toNat s s.totals.bytes 0).1 := by
  unfold runAsyncEviction
  rw [if_neg (Int64.not_le.mpr hlimit)]
  dsimp only
  exact if_neg (Int64.not_le.mpr habove)

/-- A batch that evicts nothing changes neither the total nor the number of entries. -/
theorem batches_succ_of_snd_eq_zero
    (h : ((batches cfg s n).evictBatchLRU cfg cfg.evictBatchSize).2 = 0) :
    (batches cfg s (n + 1)).totals = (batches cfg s n).totals ∧
      stored cfg (batches cfg s (n + 1)) = stored cfg (batches cfg s n) := by
  have hstored := stored_evictBatchLRU cfg (batches cfg s n) cfg.evictBatchSize
  rw [h] at hstored
  exact ⟨(unchanged_evictBatchLRU _ h).totals, hstored⟩

theorem stopsShort_genuine_iff (hlimit : 0 < cfg.maxMemoryMB) (hlinked : Linked cfg s) :
    (StopsShort cfg s → Vacant cfg (s.runAsyncEviction cfg)) ↔
      ∀ n, ComesTo cfg s n → TurnTells cfg (batches cfg s n) := by
  by_cases habove : thresholdBytes cfg < s.totals.bytes
  swap
  · exact iff_of_true (fun h => absurd h.1 habove) fun n h => absurd h.1 habove
  obtain ⟨n, hbefore, hend⟩ := evictWhile_stops cfg (maxEvictions cfg)
    (maxEvictions cfg).toNat s 0 (by omega)
  rw [← runAsyncEviction_eq hlimit habove] at hend
  simp only [Int.sub_zero] at hbefore hend
  have hturn := fun m => evictBatchLRU_snd_eq_zero_iff (linked_batches hlinked m) cfg.evictBatchSize
  constructor
  · intro hgenuine m hcomes hempty
    have hnotbefore : n ≤ m := by
      by_contra hlt
      exact (hbefore m (Nat.lt_of_not_le hlt)).2 ((hturn m).mpr hempty)
    obtain ⟨-, hstop⟩ | ⟨hresult, hcontinues, hnone⟩ := hend
    · exact absurd (hcomes.2 n hnotbefore) hstop
    · -- The loop has stopped here, so the store is empty and stays so.
      obtain ⟨htotals, hcount⟩ := batches_succ_of_snd_eq_zero hnone
      have hvacant := hgenuine ⟨habove, by rw [hresult, htotals]; exact hcontinues.1,
        by rw [hresult, hcount]; exact hcontinues.2⟩
      rw [hresult, vacant_iff, hcount] at hvacant
      rw [vacant_iff]
      have hle := stored_batches_le cfg s hnotbefore
      omega
  · rintro htells ⟨-, htarget, hfew⟩
    obtain ⟨hresult, hstop⟩ | ⟨hresult, hcontinues, hnone⟩ := hend
    · rw [hresult] at htarget hfew
      exact absurd ⟨htarget, hfew⟩ hstop
    · have hcomes : ComesTo cfg s n := by
        refine ⟨habove, fun m hm => ?_⟩
        obtain hlt | rfl := Nat.lt_or_eq_of_le hm
        · exact (hbefore m hlt).1
        · exact hcontinues
      have hvacant := htells n hcomes ((hturn n).mp hnone)
      rw [vacant_iff] at hvacant ⊢
      rw [hresult, (batches_succ_of_snd_eq_zero hnone).2, hvacant]

/-- A store that has been reached, with any shard having its turn. -/
def turned (cfg : StoreConfig) (calls : List StoreCall) (idx : UInt64) : MemStorage :=
  { reached cfg calls with evictShardIdx := idx }

theorem linked_turned (cfg : StoreConfig) (calls : List StoreCall) (idx : UInt64) :
    Linked cfg (turned cfg calls idx) :=
  (linked_reached cfg calls).move (a := .rotate idx) rfl

theorem turned_set (item : Option StoredItem) (idx : UInt64) :
    turned cfg [.set key item] idx = { (empty.set cfg key item).1 with evictShardIdx := idx } :=
  rfl

end MemStorage

namespace MemConfig

open MemStorage

variable {config : MemConfig} {cpuCount : Int64} {hashLo : GoString → UInt64} {lz4 : LZ4}
  {cfg : StoreConfig}

/-- **Memory errors.**  In every reachable state of a store made by `New`, whichever shard has its
    turn, `ErrMemoryLimit` means that no shard holds any key exactly if for an item over the limit
    the shard whose turn it is tells; and the background eviction stops short only where no shard
    holds any key exactly if the shard whose turn it is tells in every round. -/
theorem memory_errors_genuine_iff (hnew : config.new cpuCount hashLo lz4 = some cfg)
    (calls : List StoreCall) (idx : UInt64) :
    (∀ key item,
        (((turned cfg calls idx).set cfg key (some item)).2 = some .memoryLimit →
          Vacant cfg (turned cfg calls idx)) ↔
        (key ≠ [] → overLimit cfg (turned cfg calls idx) (storedSize cfg key item) →
          TurnTells cfg (turned cfg calls idx))) ∧
      ((StopsShort cfg (turned cfg calls idx) →
          Vacant cfg ((turned cfg calls idx).runAsyncEviction cfg)) ↔
        ∀ n, ComesTo cfg (turned cfg calls idx) n →
          TurnTells cfg (batches cfg (turned cfg calls idx) n)) := by
  obtain ⟨hasync, hlimit⟩ := new_eq_some hnew
  have hlinked := linked_turned cfg calls idx
  exact ⟨set_memoryLimit_genuine_iff hasync hlimit hlinked, stopsShort_genuine_iff hlimit hlinked⟩

/-- Where there is nothing to evict, nothing is what the shards hold. -/
theorem genuine_of_empty_store :
    (MemStorage.empty.set megabyteStore (ascii "b") (some large)).2 = some .memoryLimit ∧
      Vacant megabyteStore .empty := by
  refine ⟨set_large_empty, ?_⟩
  exact ((memory_errors_genuine_iff new_megabyte [] 0).1 (ascii "b") large).mpr
    (fun _ _ _ _ _ => rfl) set_large_empty

/-! ### Two shards -/

/-- Two shards of together one megabyte, without compression. -/
def twoShards : MemConfig where
  maxMemoryMB := 1
  shardCount := 2
  compressionEnabled := false

/-- A store in which all keys fall to the first shard. -/
def lopsided : StoreConfig where
  hashLo _ := 0
  shardMask := 1
  maxMemoryMB := 1
  compressionEnabled := false
  lz4 := shortInputLZ4

theorem new_twoShards : twoShards.new 1 (fun _ => 0) shortInputLZ4 = some lopsided := by
  rfl

/-- An item that nearly fills the store. -/
def bulky : StoredItem where
  version := 1
  expireAt := zeroTime
  value := replicate (2 ^ 20 - 300) 0
  key := []

theorem itemSize_bulky :
    itemSize (ascii "a") (prepareCompressedItem lopsided bulky) = 2 ^ 20 - 123 := by
  have hvalue : (prepareCompressedItem lopsided bulky).value = replicate (2 ^ 20 - 300) 0 := rfl
  rw [itemSize, hvalue, length_replicate]
  rfl

theorem storedSize_bulky :
    storedSize lopsided (ascii "a") bulky = Int64.ofNat (2 ^ 20 - 123) := by
  have hsize := itemSize_bulky
  rw [itemSize] at hsize
  rw [storedSize, calculateItemSize_eq, hsize]

/-- The item is stored without an eviction. -/
theorem set_bulky :
    (MemStorage.empty.set lopsided (ascii "a") (some bulky)).1 =
      MemStorage.empty.storeItemWithConflictResolution lopsided (ascii "a")
        (prepareCompressedItem lopsided bulky) bulky := by
  have hroom : MemStorage.empty.makeRoom lopsided (ascii "a") (prepareCompressedItem lopsided bulky) =
      (.empty, none) := by
    have hsize : calculateItemSize (ascii "a") (prepareCompressedItem lopsided bulky).value =
      Int64.ofNat (2 ^ 20 - 123) := storedSize_bulky
    rw [makeRoom_eq_checkAndEvict (by decide), hsize]
    rfl
  rw [set_of_ne_nil (by decide), hroom]

theorem bytes_bulky :
    (MemStorage.empty.set lopsided (ascii "a") (some bulky)).1.totals.bytes =
      Int64.ofNat (2 ^ 20 - 123) := by
  have hzero : MemStorage.empty.totals.bytes = 0 := rfl
  have hentry : entry lopsided .empty (ascii "a") = none := rfl
  rw [set_bulky, bytes_storeItem, hentry, hzero, Int64.zero_add]
  dsimp only
  rw [itemSize_bulky]
  rfl

/-- All is in the first shard. -/
theorem shards_lopsided (item : CompressedItem) (originalItem : StoredItem) :
    ((MemStorage.empty.storeItemWithConflictResolution lopsided (ascii "a") item
        originalItem).shards 0).data.entries ≠ [] ∧
      ((MemStorage.empty.storeItemWithConflictResolution lopsided (ascii "a") item
        originalItem).shards 1).data.entries = [] :=
  ⟨cons_ne_nil _ _, rfl⟩

/-- With the second shard next in turn, a small item finds nothing to evict. -/
theorem set_beside_bulky {s : MemStorage} (hlinked : Linked lopsided s)
    (hturn : s.evictShardIdx = 0) (hbytes : s.totals.bytes = Int64.ofNat (2 ^ 20 - 123))
    (hshard : (s.shards 1).data.entries = []) :
    (s.set lopsided (ascii "b") (some (plainItem 1 "x"))).2 = some .memoryLimit := by
  have hnext : nextShard lopsided s = 1 := by
    rw [nextShard, hturn]
    rfl
  rw [set_snd_eq_memoryLimit_iff rfl (by decide), hasRoom_iff hlinked, hnext]
  refine ⟨by decide, fun hroom => hroom ?_ hshard⟩
  rw [overLimit, hbytes]
  decide

/-- The first shard is nearly full, the second has its turn. -/
theorem memoryLimit_beside_bulky_item :
    ¬ ∀ (config : MemConfig) (cpuCount : Int64) (hashLo : GoString → UInt64) (lz4 : LZ4)
      (cfg : StoreConfig), config.new cpuCount hashLo lz4 = some cfg →
      ∀ (calls : List StoreCall) (idx : UInt64),
        (∀ key item, storedSize cfg key item < cfg.maxMemoryMB * 1024 * 1024 →
          ((turned cfg calls idx).set cfg key (some item)).2 = some .memoryLimit →
            Vacant cfg (turned cfg calls idx)) ∧
        (StopsShort cfg (turned cfg calls idx) →
          Vacant cfg ((turned cfg calls idx).runAsyncEviction cfg)) := by
  intro hall
  have hgenuine := (hall twoShards 1 (fun _ => 0) shortInputLZ4 lopsided new_twoShards
    [.set (ascii "a") (some bulky)] 0).1 (ascii "b") (plainItem 1 "x") (by decide)
  have hlinked := linked_turned lopsided [.set (ascii "a") (some bulky)] 0
  rw [turned_set, set_bulky] at hgenuine hlinked
  have hbytes := bytes_bulky
  rw [set_bulky] at hbytes
  obtain ⟨hfirst, hsecond⟩ := shards_lopsided (prepareCompressedItem lopsided bulky) bulky
  exact hfirst (hgenuine (set_beside_bulky hlinked rfl hbytes hsecond) 0 (by decide))

end MemConfig

end GridKV
