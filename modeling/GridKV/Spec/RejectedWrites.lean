import GridKV.Spec.MemoryLimit
import GridKV.Spec.StoreLww

/-!
# Writes that are rejected

A `Set` that fails has changed nothing but the list of recently used keys, although the memory
check may have been at work before it failed: where it gives up, it has evicted nothing
(`unchanged_of_set_eq_some`).

`BatchSet` makes one `Set` for each item and drops what they return.  A later item can also evict
an earlier one.  So a `BatchSet` that returns nil has stored everything exactly if every single
`Set` finds room and spares what the batch has written so far (`kept_batchSet_iff`).
-/

namespace GridKV

open Go Run List

namespace MemStorage

variable {cfg : StoreConfig} {s t u : MemStorage} {i : Nat} {key k : GoString} {item : StoredItem}
  {items : List (GoString × Option StoredItem)}

/-! ### `Set` -/

/-- Maps, counters and pending operations are the same. -/
structure Unchanged (s t : MemStorage) : Prop where
  data : ∀ i, (t.shards i).data = (s.shards i).data
  counters : ∀ i, (t.shards i).counters = (s.shards i).counters
  syncBuffer : ∀ i, (t.shards i).syncBuffer = (s.shards i).syncBuffer
  totals : t.totals = s.totals

namespace Unchanged

theorem refl (s : MemStorage) : Unchanged s s :=
  ⟨fun _ => rfl, fun _ => rfl, fun _ => rfl, rfl⟩

theorem trans (h : Unchanged s t) (h' : Unchanged t u) : Unchanged s u where
  data i := (h'.data i).trans (h.data i)
  counters i := (h'.counters i).trans (h.counters i)
  syncBuffer i := (h'.syncBuffer i).trans (h.syncBuffer i)
  totals := h'.totals.trans h.totals

theorem removeFromLRU (s : MemStorage) (i : Nat) (key : GoString) :
    Unchanged s (s.removeFromLRU i key) := by
  have hshard : ∀ j, j = i ∨ (s.removeFromLRU i key).shards j = s.shards j := by
    intro j
    by_cases hj : j = i
    · exact .inl hj
    · exact .inr (modifyShard_of_ne s _ hj)
  have hself : (s.removeFromLRU i key).shards i =
      { s.shards i with lru := (s.shards i).lru.remove key } := modifyShard_self s i _
  refine ⟨fun j => ?_, fun j => ?_, fun j => ?_, rfl⟩
  all_goals
    obtain rfl | hother := hshard j
    · rw [hself]
    · rw [hother]

end Unchanged

/-- Rounds that evict nothing only clear the list of keys that are gone. -/
theorem unchanged_evictLoop (i batchSize rounds : Nat) (s : MemStorage) (evicted : Nat) :
    evicted ≤ (evictLoop i batchSize rounds s evicted).2 ∧
      ((evictLoop i batchSize rounds s evicted).2 = evicted →
        Unchanged s (evictLoop i batchSize rounds s evicted).1) := by
  induction rounds generalizing s evicted with
  | zero => exact ⟨Nat.le_refl _, fun _ => .refl s⟩
  | succ rounds ih =>
    unfold evictLoop
    split
    · split
      · exact ⟨Nat.le_refl _, fun _ => .refl s⟩
      · rename_i key _
        split
        · obtain ⟨hle, hsame⟩ := ih (s.removeFromLRU i key) evicted
          exact ⟨hle, fun heq => (Unchanged.removeFromLRU s i key).trans (hsame heq)⟩
        · -- This round evicts an entry, and the count never goes back.
          rename_i e _
          obtain ⟨hle, -⟩ := ih ((s.removeFromLRU i key).eraseItem i key e) (evicted + 1)
          refine ⟨by omega, fun heq => ?_⟩
          omega
    · exact ⟨Nat.le_refl _, fun _ => .refl s⟩

theorem unchanged_evictBatchLRU (batchSize : Int) (h : (s.evictBatchLRU cfg batchSize).2 = 0) :
    Unchanged s (s.evictBatchLRU cfg batchSize).1 := by
  have hnext : Unchanged s { s with evictShardIdx := s.evictShardIdx + 1 } :=
    ⟨fun _ => rfl, fun _ => rfl, fun _ => rfl, rfl⟩
  exact hnext.trans ((unchanged_evictLoop _ _ _ _ 0).2 h)

/-- The memory check in the background mode gives up only where it has evicted nothing. -/
theorem unchanged_checkAndEvict (hasync : cfg.asyncEviction = true) {size : Int64}
    {err : StoreError} (h : (s.checkAndEvict cfg size).2 = some err) :
    Unchanged s (s.checkAndEvict cfg size).1 := by
  unfold checkAndEvict at h ⊢
  dsimp only at h ⊢
  rw [if_pos hasync] at h ⊢
  split
  · exact .refl s
  · rename_i habove
    rw [if_neg habove] at h
    split
    · rename_i hover
      rw [if_pos hover] at h
      split
      · rename_i hnone
        exact unchanged_evictBatchLRU 5 hnone
      · rename_i hsome
        rw [if_neg hsome] at h
        cases h
    · exact .refl s

/-- There is only one error. -/
theorem checkAndEvict_snd_cases (cfg : StoreConfig) (s : MemStorage) (size : Int64) :
    (s.checkAndEvict cfg size).2 = none ∨ (s.checkAndEvict cfg size).2 = some .memoryLimit := by
  unfold checkAndEvict
  dsimp only
  repeat' split
  all_goals first | exact .inl rfl | exact .inr rfl

theorem makeRoom_eq_checkAndEvict (hlimit : 0 < cfg.maxMemoryMB) (e : CompressedItem) :
    s.makeRoom cfg key e = s.checkAndEvict cfg (calculateItemSize key e.value) := if_pos hlimit

/-! ### The items of a batch -/

/-- The size `Set` checks an item for. -/
def storedSize (cfg : StoreConfig) (key : GoString) (item : StoredItem) : Int64 :=
  calculateItemSize key (prepareCompressedItem cfg item).value

/-- The key holds the item, or a version that is at least as high. -/
def Kept (cfg : StoreConfig) (s : MemStorage) (key : GoString) (item : StoredItem) : Prop :=
  ∃ e, entry cfg s key = some e ∧ item.version ≤ e.version

/-- There is something to evict for the item, if it is over the limit. -/
def HasRoom (cfg : StoreConfig) (s : MemStorage) (key : GoString) (item : StoredItem) : Prop :=
  overLimit cfg s (storedSize cfg key item) → victims cfg s (storedSize cfg key item) ≠ []

/-- The `Set` of the item evicts the key `k`. -/
def Evicts (cfg : StoreConfig) (s : MemStorage) (key : GoString) (item : StoredItem)
    (k : GoString) : Prop :=
  cfg.shardIndex k = nextShard cfg s ∧ k ∈ (victims cfg s (storedSize cfg key item)).map Prod.fst

instance (cfg : StoreConfig) (s : MemStorage) (key : GoString) (item : StoredItem)
    (k : GoString) : Decidable (Evicts cfg s key item k) :=
  inferInstanceAs (Decidable (_ ∧ _))

theorem kept_storeItem :
    Kept cfg (s.storeItemWithConflictResolution cfg key (prepareCompressedItem cfg item) item) key
      item := by
  unfold Kept
  rw [entry_storeItem, if_pos rfl]
  obtain ⟨e, he, hle⟩ :=
    Lww.reached_put versionOf (entry cfg s key) (prepareCompressedItem cfg item)
  exact ⟨e, he, Int64.le_iff_toInt_le.mpr hle⟩

theorem entry_storeItem_of_ne (item : StoredItem) (hk : k ≠ key) :
    entry cfg (s.storeItemWithConflictResolution cfg key (prepareCompressedItem cfg item) item) k =
      entry cfg s k := by
  rw [entry_storeItem, if_neg hk]

section

variable (hasync : cfg.asyncEviction = true) (hlimit : 0 < cfg.maxMemoryMB)

include hasync hlimit

theorem makeRoom_snd_eq_none_iff (s : MemStorage) (key : GoString) (item : StoredItem) :
    (s.makeRoom cfg key (prepareCompressedItem cfg item)).2 = none ↔ HasRoom cfg s key item := by
  rw [makeRoom_eq_checkAndEvict hlimit]
  exact (checkAndEvict_spec hasync s _).1

theorem entry_makeRoom (s : MemStorage) (key : GoString) (item : StoredItem) (k : GoString) :
    entry cfg (s.makeRoom cfg key (prepareCompressedItem cfg item)).1 k =
      if Evicts cfg s key item k then none else entry cfg s k := by
  rw [makeRoom_eq_checkAndEvict hlimit]
  exact (checkAndEvict_spec hasync s (storedSize cfg key item)).2.lookup _ k

/-- `Set` reports the memory limit exactly if there is no room. -/
theorem set_snd_eq_memoryLimit_iff (s : MemStorage) (key : GoString) (item : StoredItem) :
    (s.set cfg key (some item)).2 = some .memoryLimit ↔ key ≠ [] ∧ ¬ HasRoom cfg s key item := by
  have hroom := makeRoom_snd_eq_none_iff hasync hlimit s key item
  by_cases hkey : key = []
  · simp [MemStorage.set, hkey]
  · have hcases := checkAndEvict_snd_cases cfg s (storedSize cfg key item)
    rw [set_of_ne_nil hkey, ← hroom]
    rw [storedSize, ← makeRoom_eq_checkAndEvict hlimit] at hcases
    obtain hnone | hsome := hcases
    · simp [hnone]
    · simp [hsome, hkey]

/-- Another key than the one that is written can only be evicted. -/
theorem entry_set_of_ne (hkey : key ≠ []) (hk : k ≠ key) (s : MemStorage) (item : StoredItem) :
    entry cfg (s.set cfg key (some item)).1 k =
      if Evicts cfg s key item k then none else entry cfg s k := by
  rw [← entry_makeRoom hasync hlimit, set_of_ne_nil hkey]
  cases (s.makeRoom cfg key (prepareCompressedItem cfg item)).2 with
  | some err => rfl
  | none => exact entry_storeItem_of_ne item hk

/-- The key that is written holds the item afterwards, unless there was no room for it. -/
theorem kept_set_iff (hkey : key ≠ []) (s : MemStorage) (item : StoredItem) :
    Kept cfg (s.set cfg key (some item)).1 key item ↔
      HasRoom cfg s key item ∨ Kept cfg s key item := by
  have hroom := makeRoom_snd_eq_none_iff hasync hlimit s key item
  rw [set_of_ne_nil hkey]
  cases hcheck : (s.makeRoom cfg key (prepareCompressedItem cfg item)).2 with
  | none => exact iff_of_true (kept_storeItem) (.inl (hroom.mp hcheck))
  | some err =>
    have hfull : ¬ HasRoom cfg s key item := by
      rw [← hroom, hcheck]
      exact Option.some_ne_none err
    rw [or_iff_right hfull]
    -- A `Set` that fails leaves the map as it is.
    rw [makeRoom_eq_checkAndEvict hlimit] at hcheck ⊢
    have hsame := unchanged_checkAndEvict hasync hcheck
    dsimp only
    unfold Kept entry
    rw [hsame.data]

end

/-! ### The batch -/

/-- The store, and the items of the batch that have had their turn. -/
structure Batch where
  store : MemStorage
  written : List (GoString × StoredItem) := []

namespace Batch

/-- The next item has its turn.  The keys of a batch are those of a Go map, so no key comes
    twice. -/
def step (cfg : StoreConfig) (b : Batch) (entry : GoString × StoredItem) : Option Batch :=
  if entry.1 = [] ∨ entry.1 ∈ b.written.map Prod.fst then none
  else some
    { store := (b.store.set cfg entry.1 (some entry.2)).1
      written := entry :: b.written }

/-- The `Set` finds room, or the key already holds what it should, and no item of the batch is
    evicted for it. -/
def Spares (cfg : StoreConfig) (b : Batch) (entry : GoString × StoredItem) : Prop :=
  (HasRoom cfg b.store entry.1 entry.2 ∨ Kept cfg b.store entry.1 entry.2) ∧
    ∀ earlier ∈ b.written, ¬ Evicts cfg b.store entry.1 entry.2 earlier.1

/-- Everything written so far is there. -/
def AllKept (cfg : StoreConfig) (b : Batch) : Prop :=
  ∀ earlier ∈ b.written, Kept cfg b.store earlier.1 earlier.2

variable {b c : Batch} {next : GoString × StoredItem}

section

variable (hasync : cfg.asyncEviction = true) (hlimit : 0 < cfg.maxMemoryMB)

include hasync hlimit

/-- What a step does to an item of the batch that has had its turn. -/
theorem kept_step_iff (hstep : b.step cfg next = some c) {earlier : GoString × StoredItem}
    (hmem : earlier ∈ b.written) :
    Kept cfg c.store earlier.1 earlier.2 ↔
      ¬ Evicts cfg b.store next.1 next.2 earlier.1 ∧ Kept cfg b.store earlier.1 earlier.2 := by
  unfold step at hstep
  split at hstep <;> cases hstep
  rename_i hfresh
  obtain ⟨hkey, hnew⟩ := not_or.mp hfresh
  have hne : earlier.1 ≠ next.1 := fun heq => hnew (heq ▸ mem_map_of_mem hmem)
  dsimp only
  unfold Kept
  rw [entry_set_of_ne hasync hlimit hkey hne]
  split
  · rename_i hevicts
    simp [hevicts]
  · rename_i hspared
    simp [hspared]

theorem allKept_step_iff (hstep : b.step cfg next = some c) :
    AllKept cfg c ↔ AllKept cfg b ∧ Spares cfg b next := by
  have hearlier : ∀ e ∈ b.written, Kept cfg c.store e.1 e.2 ↔
      ¬ Evicts cfg b.store next.1 next.2 e.1 ∧ Kept cfg b.store e.1 e.2 :=
    fun _ hmem => kept_step_iff hasync hlimit hstep hmem
  unfold step at hstep
  split at hstep <;> cases hstep
  rename_i hfresh
  have hself := kept_set_iff hasync hlimit (not_or.mp hfresh).1 b.store next.2
  unfold AllKept Spares
  rw [forall_mem_cons, hself]
  constructor
  · rintro ⟨hnext, hall⟩
    refine ⟨fun e he => ((hearlier e he).mp (hall e he)).2, hnext, fun e he => ?_⟩
    exact ((hearlier e he).mp (hall e he)).1
  · rintro ⟨hall, hnext, hspared⟩
    exact ⟨hnext, fun e he => (hearlier e he).mpr ⟨hspared e he, hall e he⟩⟩

/-- A key that is lost is not written again, so the end tells whether all steps were safe. -/
theorem allKept_iff {items : List (GoString × StoredItem)} (hrun : Runs (step cfg) b items c)
    (hb : AllKept cfg b) : AllKept cfg c ↔ GuardedRun (step cfg) (Spares cfg) b items c := by
  refine guardedRun_iff (AllKept cfg) (fun b => ¬ AllKept cfg b) ?_ ?_ (fun _ h => h)
    (fun _ h => h) hrun hb
  · intro b next c hgood hstep
    have hiff := allKept_step_iff hasync hlimit hstep
    exact ⟨fun hspares => hiff.mpr ⟨hgood, hspares⟩, fun hnot hall => hnot (hiff.mp hall).2⟩
  · intro b next c hbad hstep hall
    exact hbad ((allKept_step_iff hasync hlimit hstep).mp hall).1

end

/-- The loop of `BatchSet`. -/
theorem runs_foldl_set (cfg : StoreConfig) (items : List (GoString × StoredItem)) (b : Batch)
    (hkeys : ∀ x ∈ items, x.1 ≠ []) (hnodup : (items.map Prod.fst).Nodup)
    (hfresh : ∀ x ∈ items, x.1 ∉ b.written.map Prod.fst) :
    Runs (step cfg) b items
      { store := items.foldl (fun s entry => (s.set cfg entry.1 (some entry.2)).1) b.store
        written := items.reverse ++ b.written } := by
  induction items generalizing b with
  | nil => exact .nil b
  | cons x items ih =>
    obtain ⟨hkey, hkeys⟩ := forall_mem_cons.mp hkeys
    obtain ⟨hx, hfresh⟩ := forall_mem_cons.mp hfresh
    rw [map_cons, nodup_cons] at hnodup
    have hstep : b.step cfg x = some
        { store := (b.store.set cfg x.1 (some x.2)).1, written := x :: b.written } :=
      if_neg (not_or.mpr ⟨hkey, hx⟩)
    have hrest := ih { store := (b.store.set cfg x.1 (some x.2)).1, written := x :: b.written }
      hkeys hnodup.2 fun y hy => ?_
    · rw [reverse_cons, append_assoc]
      exact .cons trivial hstep hrest
    · rw [map_cons, mem_cons, not_or]
      exact ⟨fun heq => hnodup.1 (heq ▸ mem_map_of_mem hy), hfresh y hy⟩

end Batch

theorem mem_batchItems : (key, item) ∈ batchItems items ↔ (key, some item) ∈ items ∧ key ≠ [] := by
  unfold batchItems
  rw [mem_filterMap]
  constructor
  · rintro ⟨⟨k, item'⟩, hmem, heq⟩
    dsimp only at heq
    split at heq
    · cases heq
    · rename_i hk
      obtain ⟨item'', rfl, hpair⟩ := Option.map_eq_some_iff.mp heq
      cases hpair
      exact ⟨hmem, hk⟩
  · rintro ⟨hmem, hkey⟩
    exact ⟨_, hmem, by simp [hkey]⟩

/-- The keys of the items that are kept are among those of the map. -/
theorem nodup_batchItems (h : (items.map Prod.fst).Nodup) :
    ((batchItems items).map Prod.fst).Nodup := by
  have hsub : ∀ items : List (GoString × Option StoredItem),
      ((batchItems items).map Prod.fst).Sublist (items.map Prod.fst) := by
    intro items
    induction items with
    | nil => exact .refl _
    | cons x items ih =>
      obtain ⟨k, item⟩ := x
      unfold batchItems at ih ⊢
      rw [filterMap_cons]
      split
      · exact ih.cons _
      · rename_i b heq
        dsimp only at heq
        split at heq
        · cases heq
        · obtain ⟨item', -, rfl⟩ := Option.map_eq_some_iff.mp heq
          exact ih.cons_cons k
  exact h.sublist (hsub items)

/-- The error of a batch is that of its memory check. -/
theorem batchSet_snd (hne : items ≠ []) :
    (s.batchSet cfg items).2 = (s.batchRoom cfg (batchItems items)).2 := by
  rw [batchSet, if_neg hne]
  cases s.batchRoom cfg (batchItems items) with
  | mk room err => cases err <;> rfl

theorem batchSet_of_snd_eq_none (h : (s.batchSet cfg items).2 = none) :
    (s.batchSet cfg items).1 = (batchItems items).foldl
      (fun s entry => (s.set cfg entry.1 (some entry.2)).1)
      (if items = [] then s else (s.batchRoom cfg (batchItems items)).1) := by
  by_cases hne : items = []
  · subst hne
    rfl
  · rw [batchSet_snd hne] at h
    rw [batchSet, if_neg hne, if_neg hne]
    cases hroom : s.batchRoom cfg (batchItems items) with
    | mk room err =>
      rw [hroom] at h
      obtain rfl : err = none := h
      rfl

theorem batchSet_singleton (hkey : key ≠ []) (hnone : (s.batchRoom cfg [(key, item)]).2 = none) :
    (s.batchSet cfg [(key, some item)]).1 =
        ((s.batchRoom cfg [(key, item)]).1.set cfg key (some item)).1 ∧
      (s.batchSet cfg [(key, some item)]).2 = none := by
  have hitems : batchItems [(key, some item)] = [(key, item)] := by simp [batchItems, hkey]
  have herr : (s.batchSet cfg [(key, some item)]).2 = none := by
    rw [batchSet_snd (cons_ne_nil _ _), hitems, hnone]
  refine ⟨?_, herr⟩
  rw [batchSet_of_snd_eq_none herr, if_neg (cons_ne_nil _ _), hitems]
  rfl

end MemStorage

namespace MemConfig

open MemStorage

variable {config : MemConfig} {cpuCount : Int64} {hashLo : GoString → UInt64} {lz4 : LZ4}
  {cfg : StoreConfig} {s : MemStorage} {key : GoString}

/-- **Rejected writes.**  In every state of a store made by `New`, a `Set` that returns an error
    leaves the maps, the counters and the pending operations of all shards as they were. -/
theorem unchanged_of_set_eq_some (hnew : config.new cpuCount hashLo lz4 = some cfg)
    {item : Option StoredItem} {err : StoreError} (herr : (s.set cfg key item).2 = some err) :
    Unchanged s (s.set cfg key item).1 := by
  obtain ⟨hasync, hlimit⟩ := new_eq_some hnew
  cases item with
  | none =>
    unfold MemStorage.set
    split <;> exact .refl s
  | some item =>
    by_cases hkey : key = []
    · rw [MemStorage.set, if_pos hkey]
      exact .refl s
    · rw [set_of_ne_nil hkey, makeRoom_eq_checkAndEvict hlimit] at herr ⊢
      cases hcheck : (s.checkAndEvict cfg
          (calculateItemSize key (prepareCompressedItem cfg item).value)).2 with
      | none =>
        rw [hcheck] at herr
        cases herr
      | some err' => exact unchanged_checkAndEvict hasync hcheck

/-- In an empty store of one megabyte there is nothing to evict for an item of a megabyte. -/
theorem not_hasRoom_large {s : MemStorage} (hbytes : s.totals.bytes = 0)
    (hempty : (s.shards 0).byAge = []) : ¬ HasRoom megabyteStore s (ascii "b") large := by
  have hsize : storedSize megabyteStore (ascii "b") large = Int64.ofNat (2 ^ 20 + 177) := size_large
  have hturn : nextShard megabyteStore s = 0 := by
    rw [nextShard, UInt64.toNat_and]
    exact Nat.and_zero _
  intro hroom
  rw [HasRoom, hsize] at hroom
  refine hroom ?_ ?_
  · rw [overLimit, hbytes]
    decide
  · rw [victims, hturn, hempty]
    split <;> rfl

theorem set_large_empty :
    (MemStorage.empty.set megabyteStore (ascii "b") (some large)).2 = some .memoryLimit := by
  rw [set_snd_eq_memoryLimit_iff rfl (by decide)]
  exact ⟨by decide, not_hasRoom_large rfl rfl⟩

/-- The memory check looks in vain for something to evict. -/
theorem unchanged_after_large_item :
    Unchanged .empty (MemStorage.empty.set megabyteStore (ascii "b") (some large)).1 :=
  unchanged_of_set_eq_some new_megabyte set_large_empty

/-- **Bulk writes.**  In every state of a store made by `New` and for every map of items, in
    whatever order they are stored: after a `BatchSet` that returns nil, every key that is not empty
    holds its item or a version at least as high exactly if every `Set` of the batch finds room, or
    its key as it should be, and evicts no item of the batch. -/
theorem kept_batchSet_iff (hnew : config.new cpuCount hashLo lz4 = some cfg)
    {items : List (GoString × Option StoredItem)} (hnodup : (items.map Prod.fst).Nodup)
    (h : (s.batchSet cfg items).2 = none) :
    (∀ key item, (key, some item) ∈ items → key ≠ [] →
        Kept cfg (s.batchSet cfg items).1 key item) ↔
      ∃ b, GuardedRun (Batch.step cfg) (Batch.Spares cfg)
        { store := if items = [] then s else (s.batchRoom cfg (batchItems items)).1 }
        (batchItems items) b := by
  obtain ⟨hasync, hlimit⟩ := new_eq_some hnew
  have hrun := Batch.runs_foldl_set cfg (batchItems items)
    { store := if items = [] then s else (s.batchRoom cfg (batchItems items)).1 }
    (fun x hx => (mem_batchItems.mp hx).2) (nodup_batchItems hnodup)
    fun x _ => not_mem_nil
  have hiff := Batch.allKept_iff hasync hlimit hrun fun x hx => absurd hx not_mem_nil
  rw [← batchSet_of_snd_eq_none h] at hrun hiff
  constructor
  · intro hkept
    refine ⟨_, hiff.mp fun x hx => ?_⟩
    rw [append_nil, mem_reverse] at hx
    obtain ⟨hmem, hkey⟩ := mem_batchItems.mp hx
    exact hkept x.1 x.2 hmem hkey
  · rintro ⟨b, hguarded⟩ key item hmem hkey
    obtain rfl := hguarded.end_unique hrun
    refine hiff.mpr hguarded (key, item) ?_
    rw [append_nil, mem_reverse]
    exact mem_batchItems.mpr ⟨hmem, hkey⟩

/-- Two small items. -/
theorem kept_small_batch :
    Kept megabyteStore (MemStorage.empty.batchSet megabyteStore
      [(ascii "a", some (plainItem 1 "x")), (ascii "b", some (plainItem 1 "y"))]).1 (ascii "a")
      (plainItem 1 "x") := by
  refine (kept_batchSet_iff new_megabyte (by decide) (by decide)).mpr ?_ _ _
    mem_cons_self (by decide)
  -- Neither of them is over the limit.
  exact ⟨_, .cons ⟨.inl fun h => absurd h (by decide), by decide⟩ rfl
    (.cons ⟨.inl fun h => absurd h (by decide), by decide⟩ rfl (.nil _))⟩

/-- The check of the batch evicts the small item. -/
theorem batchRoom_large :
    (holding.batchRoom megabyteStore [(ascii "b", large)]).2 = none ∧
      Drops 0 [(ascii "a", prepareCompressedItem megabyteStore (plainItem 1 "x"))] holding
        (holding.batchRoom megabyteStore [(ascii "b", large)]).1 := by
  have hsize : calculateItemSize (ascii "b") large.value = Int64.ofNat (2 ^ 20 + 177) := size_large
  have hcheck : holding.batchRoom megabyteStore [(ascii "b", large)] =
      holding.checkAndEvict megabyteStore (Int64.ofNat (2 ^ 20 + 177)) := by
    unfold batchRoom
    rw [if_pos (by decide), foldl_cons, foldl_nil, hsize, Int64.zero_add]
  have hasync : megabyteStore.asyncEviction = true := rfl
  obtain ⟨hnone, hdrops⟩ := checkAndEvict_spec hasync holding (Int64.ofNat (2 ^ 20 + 177))
  rw [victims_large] at hnone hdrops
  rw [hcheck]
  exact ⟨hnone.mpr fun _ => cons_ne_nil _ _, hdrops⟩

/-- Once the small item is gone there is nothing left to evict. -/
theorem not_kept_set_large {room : MemStorage}
    (hdrops : Drops 0 [(ascii "a", prepareCompressedItem megabyteStore (plainItem 1 "x"))] holding
      room) :
    ¬ Kept megabyteStore (room.set megabyteStore (ascii "b") (some large)).1 (ascii "b") large := by
  rw [kept_set_iff rfl (by decide) (by decide)]
  rintro (hroom | ⟨e, he, -⟩)
  · refine not_hasRoom_large ?_ ?_ hroom
    · rw [hdrops.bytes]
      decide
    · have hage := hdrops.byAge
      have hholding : (holding.shards 0).byAge =
        [(ascii "a", prepareCompressedItem megabyteStore (plainItem 1 "x"))] := rfl
      rw [hholding] at hage
      simpa using hage
  · have hbefore := hdrops.lookup 0 (ascii "b")
    rw [if_neg (by decide)] at hbefore
    have hnone : (holding.shards 0).data.lookup (ascii "b") = none := rfl
    have hentry : entry megabyteStore room (ascii "b") = none := hbefore.trans hnone
    rw [hentry] at he
    cases he

theorem batchSet_large :
    (holding.batchSet megabyteStore [(ascii "b", some large)]).2 = none ∧
      ¬ Kept megabyteStore (holding.batchSet megabyteStore [(ascii "b", some large)]).1 (ascii "b")
        large := by
  obtain ⟨hnone, hdrops⟩ := batchRoom_large
  obtain ⟨hstore, herr⟩ := batchSet_singleton (by decide) hnone
  rw [hstore]
  exact ⟨herr, not_kept_set_large hdrops⟩

/-- The item that the batch is to store is larger than the limit: the check of the batch evicts
    what there is, the `Set` finds nothing left to evict, and its error is dropped. -/
theorem batchSet_large_loses_item :
    ¬ ∀ (config : MemConfig) (cpuCount : Int64) (hashLo : GoString → UInt64) (lz4 : LZ4)
      (cfg : StoreConfig), config.new cpuCount hashLo lz4 = some cfg →
      ∀ (calls : List StoreCall) (items : List (GoString × Option StoredItem)),
        (items.map Prod.fst).Nodup → ((reached cfg calls).batchSet cfg items).2 = none →
        ∀ key item, (key, some item) ∈ items → key ≠ [] →
          Kept cfg ((reached cfg calls).batchSet cfg items).1 key item := by
  intro hall
  obtain ⟨hnone, hlost⟩ := batchSet_large
  have hreached : reached megabyteStore [.set (ascii "a") (some (plainItem 1 "x"))] = holding := rfl
  have hkept := hall megabyte 1 (fun _ => 0) shortInputLZ4 megabyteStore new_megabyte
    [.set (ascii "a") (some (plainItem 1 "x"))] [(ascii "b", some large)] (by simp)
  rw [hreached] at hkept
  exact hlost (hkept hnone _ _ mem_cons_self (by decide))

end MemConfig

end GridKV
