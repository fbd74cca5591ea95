import GridKV.ForStd.MapWeight
import GridKV.Spec.StoreEntries

/-!
# Is the memory accounting exact?

`totalBytes` is what the memory limit is compared with.  Every method adds and subtracts
its own sizes, and all of them agree with the entries they store and remove, except for
one: when an entry is replaced, its old size is computed with an empty key.  So each
overwrite adds the length of the key to `totalBytes` for good, or until `Clear`
(`accounted_of_actions`), and the total is the footprint exactly as long as these lengths
add up to nothing (`totals_eq_footprint_iff`).
-/

namespace GridKV

open Go

namespace MemStorage

variable {cfg : StoreConfig} {s t : MemStorage} {i n : Nat} {key : GoString} {e : CompressedItem}
  {w : GoString → CompressedItem → Nat}

/-! ### The footprint -/

/-- `calculateItemSize` of an entry, as a number. -/
def itemSize (key : GoString) (e : CompressedItem) : Nat := key.length + e.value.length + 176

/-- The sizes of all stored entries together. -/
def footprint (cfg : StoreConfig) (s : MemStorage) : Nat :=
  ∑ i ∈ Finset.range cfg.shardCount, (s.shards i).data.weigh itemSize

theorem calculateItemSize_eq (value : Bytes) :
    calculateItemSize key value = Int64.ofNat (key.length + value.length + 176) := by
  simp only [calculateItemSize, Int64.ofNat_add, Int64.add_assoc]
  rfl

/-! ### Sums over the entries -/

/-- The weights of all stored entries together. -/
def weight (cfg : StoreConfig) (w : GoString → CompressedItem → Nat) (s : MemStorage) : Nat :=
  ∑ i ∈ Finset.range cfg.shardCount, (s.shards i).data.weigh w

theorem footprint_eq_weight : footprint cfg s = weight cfg itemSize s := rfl

/-- Only the shard that is changed counts. -/
theorem weight_modifyShard (hi : i < cfg.shardCount) (f : Shard → Shard) :
    weight cfg w (s.modifyShard i f) + (s.shards i).data.weigh w =
      weight cfg w s + (f (s.shards i)).data.weigh w := by
  have hsum := Finset.sum_add_of_eq_off (Finset.mem_range.mpr hi)
    (f := fun j => ((s.modifyShard i f).shards j).data.weigh w)
    (g := fun j => (s.shards j).data.weigh w)
    fun j hj => by rw [modifyShard_of_ne s f hj]
  rwa [modifyShard_self] at hsum

theorem weight_modifyShard_of_data {f : Shard → Shard}
    (h : (f (s.shards i)).data = (s.shards i).data) :
    weight cfg w (s.modifyShard i f) = weight cfg w s := by
  apply Finset.sum_congr rfl
  intro j _
  by_cases hj : j = i
  · subst hj
    rw [modifyShard_self, h]
  · rw [modifyShard_of_ne s f hj]

@[simp] theorem weight_touchLRU (i : Nat) (k : GoString) :
    weight cfg w (s.touchLRU i k) = weight cfg w s := weight_modifyShard_of_data rfl

@[simp] theorem weight_removeFromLRU (i : Nat) (k : GoString) :
    weight cfg w (s.removeFromLRU i k) = weight cfg w s := weight_modifyShard_of_data rfl

@[simp] theorem weight_addToSyncBuffer (i : Nat) (k : GoString) (opType : OpType)
    (item : Option StoredItem) :
    weight cfg w (s.addToSyncBuffer i k opType item) = weight cfg w s := by
  unfold addToSyncBuffer
  exact weight_modifyShard_of_data rfl

@[simp] theorem weight_addStats (d : Counters) : weight cfg w (s.addStats i d) = weight cfg w s :=
  weight_modifyShard_of_data (s := s) (i := i)
    (f := fun shard => { shard with counters := shard.counters.add d }) rfl

theorem weight_store_of_none (hi : i < cfg.shardCount)
    (h : (s.shards i).data.lookup key = none) :
    weight cfg w (s.store i key e) = weight cfg w s + w key e := by
  have hmodify := weight_modifyShard (s := s) (w := w) hi fun shard =>
    { shard with data := shard.data.insert key e }
  dsimp only at hmodify
  have hweigh := AList.weigh_insert_of_none (w := w) (b := e) h
  simp only [store]
  omega

theorem weight_store_of_some {old : CompressedItem} (hi : i < cfg.shardCount)
    (h : (s.shards i).data.lookup key = some old) :
    weight cfg w (s.store i key e) + w key old = weight cfg w s + w key e := by
  have hmodify := weight_modifyShard (s := s) (w := w) hi fun shard =>
    { shard with data := shard.data.insert key e }
  dsimp only at hmodify
  have hweigh := AList.weigh_insert_of_some (w := w) (c := e) h
  simp only [store]
  omega

theorem weight_erase (hi : i < cfg.shardCount) (h : (s.shards i).data.lookup key = some e) :
    weight cfg w (s.erase i key) + w key e = weight cfg w s := by
  have hmodify := weight_modifyShard (s := s) (w := w) hi fun shard =>
    { shard with data := shard.data.erase key }
  dsimp only at hmodify
  have hweigh := AList.weigh_erase (w := w) h
  simp only [erase]
  omega

theorem weight_empty : weight cfg w .empty = 0 := Finset.sum_eq_zero fun _ _ => rfl

theorem weight_clear : weight cfg w (s.clear cfg) = 0 := by
  apply Finset.sum_eq_zero
  intro i hi
  simp only [clear, if_pos (Finset.mem_range.mp hi)]
  rfl

/-! ### The total -/

/-- `totalBytes` is the footprint and `n` bytes more. -/
def Accounted (cfg : StoreConfig) (n : Nat) (s : MemStorage) : Prop :=
  s.totals.bytes = Int64.ofNat (footprint cfg s + n)

theorem Accounted.of_eq (h : Accounted cfg n s) (hbytes : t.totals.bytes = s.totals.bytes)
    (hfootprint : footprint cfg t = footprint cfg s) : Accounted cfg n t := by
  rw [Accounted, hbytes, hfootprint]
  exact h

theorem Accounted.touchLRU (h : Accounted cfg n s) (i : Nat) (k : GoString) :
    Accounted cfg n (s.touchLRU i k) := h.of_eq rfl (weight_touchLRU i k)

theorem Accounted.removeFromLRU (h : Accounted cfg n s) (i : Nat) (k : GoString) :
    Accounted cfg n (s.removeFromLRU i k) := h.of_eq rfl (weight_removeFromLRU i k)

theorem Accounted.addToSyncBuffer (h : Accounted cfg n s) (i : Nat) (k : GoString) (opType : OpType)
    (item : Option StoredItem) : Accounted cfg n (s.addToSyncBuffer i k opType item) :=
  h.of_eq rfl (weight_addToSyncBuffer i k opType item)

/-- Storing under a new key. -/
theorem Accounted.storeNew (h : Accounted cfg n s) (hi : i < cfg.shardCount)
    (hnone : (s.shards i).data.lookup key = none) :
    Accounted cfg n ((s.store i key e).addStats i (itemCounters key e)) := by
  rw [Accounted, footprint_eq_weight, weight_addStats, weight_store_of_none hi hnone,
    ← footprint_eq_weight]
  show s.totals.bytes + calculateItemSize key e.value = _
  rw [h, calculateItemSize_eq, ← Int64.ofNat_add]
  congr 1
  unfold itemSize
  omega

/-- Replacing an entry: its size is taken off without the length of the key. -/
theorem Accounted.replace {old : CompressedItem} (h : Accounted cfg n s) (hi : i < cfg.shardCount)
    (hold : (s.shards i).data.lookup key = some old) :
    Accounted cfg (n + key.length)
      ((s.store i key e).addStats i (replaceCounters key old e)) := by
  have hstore := weight_store_of_some (e := e) (w := itemSize) hi hold
  rw [Accounted, footprint_eq_weight, weight_addStats]
  show s.totals.bytes + (calculateItemSize key e.value + -calculateItemSize [] old.value) = _
  rw [h, calculateItemSize_eq, calculateItemSize_eq, ← Int64.add_assoc, ← Int64.ofNat_add]
  have hsum : footprint cfg s + n + (key.length + e.value.length + 176) =
      weight cfg itemSize (s.store i key e) + (n + key.length) +
        (([] : GoString).length + old.value.length + 176) := by
    unfold itemSize at hstore
    rw [footprint_eq_weight]
    unfold itemSize
    simp only [List.length_nil]
    omega
  rw [hsum, Int64.ofNat_add, ← Int64.sub_eq_add_neg, Int64.add_sub_cancel]

/-- Removing an entry. -/
theorem Accounted.eraseItem (h : Accounted cfg n s) (hi : i < cfg.shardCount)
    (he : (s.shards i).data.lookup key = some e) : Accounted cfg n (s.eraseItem i key e) := by
  have herase := weight_erase (w := itemSize) hi he
  rw [Accounted, MemStorage.eraseItem, footprint_eq_weight, weight_addStats]
  show s.totals.bytes + -calculateItemSize key e.value = _
  rw [h, calculateItemSize_eq]
  have hsum : footprint cfg s + n =
      weight cfg itemSize (s.erase i key) + n + (key.length + e.value.length + 176) := by
    rw [footprint_eq_weight]
    unfold itemSize at herase ⊢
    omega
  rw [hsum, Int64.ofNat_add, ← Int64.sub_eq_add_neg, Int64.add_sub_cancel]

/-! ### The methods -/

/-- The moves that keep `totalBytes` exact. -/
def StoreMove.exact : StoreMove → Bool
  | .drop .. | .touch _ | .unlist .. | .queue .. | .rotate _ => true
  | _ => false

theorem Accounted.move (h : Accounted cfg n s) {a : StoreMove} (ha : a.exact)
    (hmove : move cfg s a = some t) : Accounted cfg n t := by
  cases moved_of_move hmove with
  | drop i key e hi he => exact (h.eraseItem hi he).removeFromLRU i key
  | touch key => exact h.touchLRU _ key
  | unlist i key => exact h.removeFromLRU i key
  | queue i ops => exact h.of_eq rfl (weight_modifyShard_of_data rfl)
  | rotate idx => exact h
  | install | expire | forget | clear => cases ha

theorem Accounted.of_path (h : Accounted cfg n s) (hpath : Path cfg (fun _ a => a.exact) s t) :
    Accounted cfg n t :=
  hpath.invariant (fun _ _ _ hs ha hmove => hs.move ha hmove) h

theorem StoreMove.exact_of_evicts {a : StoreMove} (h : a.evicts) : a.exact := by
  cases a <;> first | rfl | exact h

theorem accounted_clear (cfg : StoreConfig) (s : MemStorage) : Accounted cfg 0 (s.clear cfg) := by
  rw [Accounted, footprint_eq_weight, weight_clear]
  rfl

/-! ### `Set` -/

/-- `Set` replaces an entry: it stores the item, and after the memory check the key is still
    there. -/
def overwrites (cfg : StoreConfig) (s : MemStorage) (key : GoString) (item : StoredItem) : Bool :=
  setStores cfg s key item &&
    (entry cfg (s.makeRoom cfg key (prepareCompressedItem cfg item)).1 key).isSome

/-- The length of the key, if `Set` replaces an entry. -/
def overwrittenLength (cfg : StoreConfig) (s : MemStorage) (key : GoString) (item : StoredItem) :
    Nat :=
  if overwrites cfg s key item then key.length else 0

theorem Accounted.storeItem (h : Accounted cfg n s) (key : GoString) (item : StoredItem) :
    Accounted cfg
      (n + if accepts cfg s key item.version && (entry cfg s key).isSome then key.length else 0)
      (s.storeItemWithConflictResolution cfg key (prepareCompressedItem cfg item) item) := by
  have hi := shardIndex_lt cfg key
  have hversion : (prepareCompressedItem cfg item).version = item.version := rfl
  cases hentry : entry cfg s key with
  | none =>
    have hlookup : (s.shards (cfg.shardIndex key)).data.lookup key = none := hentry
    simp only [storeItemWithConflictResolution, hlookup, tryStoreNewKey, Option.isSome_none,
      Bool.and_false, Bool.false_eq_true, if_false]
    exact ((h.storeNew hi hlookup).touchLRU _ _).addToSyncBuffer ..
  | some old =>
    have hlookup : (s.shards (cfg.shardIndex key)).data.lookup key = some old := hentry
    simp only [storeItemWithConflictResolution, hlookup, tryUpdateExistingKey, accepts, hentry,
      Option.isSome_some, Bool.and_true, decide_eq_true_eq, hversion]
    by_cases hle : item.version ≤ old.version
    · rw [if_pos hle, if_neg (Int64.not_lt.mpr hle)]
      exact h
    · -- Here the length of the key is left over.
      rw [if_neg hle, if_pos (Int64.not_le.mp hle)]
      exact ((h.replace hi hlookup).touchLRU _ _).addToSyncBuffer ..

theorem Accounted.set (h : Accounted cfg n s) (key : GoString) (item : StoredItem) :
    Accounted cfg (n + overwrittenLength cfg s key item) (s.set cfg key (some item)).1 := by
  by_cases hkey : key = []
  · simp [overwrittenLength, MemStorage.set, hkey]
    exact h
  · have hroom : Accounted cfg n (s.makeRoom cfg key (prepareCompressedItem cfg item)).1 :=
      h.of_path (path_makeRoom (fun _ _ => StoreMove.exact_of_evicts) s key _)
    rw [set_of_ne_nil hkey]
    -- The check may have evicted entries, whether or not it lets the item pass.
    cases herr : (s.makeRoom cfg key (prepareCompressedItem cfg item)).2 with
    | some err =>
      have hnot : overwrittenLength cfg s key item = 0 := by
        simp [overwrittenLength, overwrites, setStores, herr]
      rw [hnot]
      exact hroom
    | none =>
      have hlength : overwrittenLength cfg s key item =
          if accepts cfg (s.makeRoom cfg key (prepareCompressedItem cfg item)).1 key item.version &&
              (entry cfg (s.makeRoom cfg key (prepareCompressedItem cfg item)).1 key).isSome
            then key.length else 0 := by
        simp [overwrittenLength, overwrites, setStores, herr, hkey]
      rw [hlength]
      exact hroom.storeItem key item

/-! ### Runs -/

/-- The lengths of the keys of the entries that a list of `Set`s replaces. -/
def overwrittenBy (cfg : StoreConfig) : MemStorage → List (GoString × StoredItem) → Nat
  | _, [] => 0
  | s, entry :: items =>
    overwrittenLength cfg s entry.1 entry.2 +
      overwrittenBy cfg (s.set cfg entry.1 (some entry.2)).1 items

theorem Accounted.foldl_set (h : Accounted cfg n s) (items : List (GoString × StoredItem)) :
    Accounted cfg (n + overwrittenBy cfg s items)
      (items.foldl (fun s entry => (s.set cfg entry.1 (some entry.2)).1) s) := by
  induction items generalizing s n with
  | nil => exact h
  | cons entry items ih =>
    rw [overwrittenBy, ← Nat.add_assoc]
    exact ih (h.set entry.1 entry.2)

/-- The methods that change the entries. -/
inductive StoreAction where
  | set (key : GoString) (item : Option StoredItem)
  | batchSet (items : List (GoString × Option StoredItem))
  | delete (key : GoString) (version : Int64)
  | evictBatchLRU (batchSize : Int)
  | cleanExpired (now : Time)
  | clear

/-- A store, and the lengths of the keys whose entries have been replaced since the last
    `Clear`, added up. -/
structure AuditedStore where
  store : MemStorage := .empty
  overwritten : Nat := 0

namespace AuditedStore

def act (cfg : StoreConfig) (a : AuditedStore) : StoreAction → AuditedStore
  | .set key item =>
    { store := (a.store.set cfg key item).1
      overwritten := a.overwritten + (item.map (overwrittenLength cfg a.store key)).getD 0 }
  | .batchSet items =>
    { store := (a.store.batchSet cfg items).1
      overwritten := a.overwritten +
        if items = [] ∨ (a.store.batchRoom cfg (batchItems items)).2.isSome then 0
        else overwrittenBy cfg (a.store.batchRoom cfg (batchItems items)).1 (batchItems items) }
  | .delete key version => { a with store := (a.store.delete cfg key version).1 }
  | .evictBatchLRU batchSize => { a with store := (a.store.evictBatchLRU cfg batchSize).1 }
  | .cleanExpired now => { a with store := a.store.cleanExpired cfg now }
  | .clear => { store := a.store.clear cfg, overwritten := 0 }

variable {a : AuditedStore}

theorem accounted_batchSet (h : Accounted cfg a.overwritten a.store)
    (items : List (GoString × Option StoredItem)) :
    Accounted cfg (a.act cfg (.batchSet items)).overwritten (a.act cfg (.batchSet items)).store := by
  simp only [act, MemStorage.batchSet]
  by_cases hnil : items = []
  · simpa [hnil] using h
  · have hroom : Accounted cfg a.overwritten (a.store.batchRoom cfg (batchItems items)).1 :=
      h.of_path (path_batchRoom (fun _ _ => StoreMove.exact_of_evicts) _ _)
    cases hcheck : a.store.batchRoom cfg (batchItems items) with
    | mk room err =>
      rw [hcheck] at hroom
      cases err with
      | some err => simpa [hnil] using hroom
      | none => simpa [hnil] using hroom.foldl_set (batchItems items)

theorem accounted_act (h : Accounted cfg a.overwritten a.store) (action : StoreAction) :
    Accounted cfg (a.act cfg action).overwritten (a.act cfg action).store := by
  cases action with
  | set key item =>
    cases item with
    | none =>
      simp only [act, MemStorage.set]
      split <;> exact h
    | some item => exact h.set key item
  | batchSet items => exact accounted_batchSet h items
  | delete key version =>
    exact h.of_path (path_delete (fun _ _ _ => rfl) (fun _ _ _ => rfl) _ key version)
  | evictBatchLRU batchSize =>
    exact h.of_path (path_evictBatchLRU (fun _ _ => StoreMove.exact_of_evicts) _ batchSize)
  | cleanExpired now =>
    exact h.of_path (path_cleanExpired (fun _ _ => StoreMove.exact_of_evicts) now _)
  | clear => exact accounted_clear cfg a.store

/-- Along every run, `totalBytes` is the footprint and what the overwrites have left. -/
theorem accounted_of_actions (cfg : StoreConfig) (actions : List StoreAction) :
    Accounted cfg (actions.foldl (act cfg) {}).overwritten
      (actions.foldl (act cfg) {}).store := by
  refine List.foldlRecOn (motive := fun a : AuditedStore => Accounted cfg a.overwritten a.store)
    actions (act cfg) ?_ fun a h action _ => accounted_act h action
  rw [Accounted, footprint_eq_weight, weight_empty]
  rfl

/-- **Memory accounting.**  After any sequence of calls, `totalBytes` is the sum of the
    sizes of the stored entries exactly if the keys of the entries replaced since the last
    `Clear` have no length, modulo the range of the counter. -/
theorem totals_eq_footprint_iff (cfg : StoreConfig) (actions : List StoreAction) :
    (actions.foldl (act cfg) {}).store.totals.bytes =
        Int64.ofNat (footprint cfg (actions.foldl (act cfg) {}).store) ↔
      (actions.foldl (act cfg) {}).overwritten % 2 ^ 64 = 0 := by
  rw [accounted_of_actions cfg actions, Int64.ofNat_add, Int64.add_eq_left,
    ← Int64.toBitVec_inj, Int64.toBitVec_ofNat', ← BitVec.toNat_inj]
  simp

/-- A key that is written twice. -/
theorem totals_ne_footprint_after_overwrite :
    ([.set (ascii "k") (some (plainItem 1 "a")), .set (ascii "k") (some (plainItem 2 "b"))].foldl
        (act oneShard) {}).store.totals.bytes ≠
      Int64.ofNat (footprint oneShard ([.set (ascii "k") (some (plainItem 1 "a")),
        .set (ascii "k") (some (plainItem 2 "b"))].foldl (act oneShard) {}).store) := by
  decide

end AuditedStore

end MemStorage

end GridKV
