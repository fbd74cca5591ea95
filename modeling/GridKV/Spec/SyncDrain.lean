import GridKV.Spec.StoreEntries

/-!
# Draining the sync buffers

`GetSyncBuffer` hands out every pending operation once and in order, shard by shard,
after reading the live store again for each `OpSet`.  `forall₂_getSyncBuffer` relates
the operations it returns to the pending ones, one by one: whatever holds of the store
throughout the drain may be used about the moment each value was read.
-/

namespace GridKV

open Go List

namespace MemStorage

variable {cfg : StoreConfig} {clock : Nat → Time} {s : MemStorage} {t : MemStorage}
  {key k : GoString} {op op' : SyncOperation} {e : CompressedItem} {item : StoredItem}

/-- The pending operations of all shards, in the order they are drained in. -/
def pendingOps (cfg : StoreConfig) (s : MemStorage) : List SyncOperation :=
  (range cfg.shardCount).flatMap fun i => (buffer s i).toList

theorem mem_pendingOps_of_mem_buffer (h : op ∈ (buffer s (cfg.shardIndex key)).toList) :
    op ∈ pendingOps cfg s :=
  mem_flatMap.mpr ⟨_, mem_range.mpr (shardIndex_lt cfg key), h⟩

theorem Removes.pendingOps_eq (h : Removes cfg s t) : pendingOps cfg t = pendingOps cfg s := by
  simp only [pendingOps, h.buffer_eq]

/-- With room in the buffer, storing an item queues its operation and drops none. -/
theorem Installs.mem_pendingOps (h : Installs cfg s t key item)
    (hroom : (buffer s (cfg.shardIndex key)).head - (buffer s (cfg.shardIndex key)).tail <
      syncCapacity) (hop : op ∈ pendingOps cfg s ∨
      op = { key, opType := .set, item := some { item with key := key, value := [] } }) :
    op ∈ pendingOps cfg t := by
  -- A full buffer would drop its oldest operation here.
  have hpushed : buffer t (cfg.shardIndex key) = _ := (h.buffer_eq _).trans (if_pos rfl)
  have hlist := congrArg RingBuffer.toList hpushed
  rw [RingBuffer.toList_push_of_lt _ _ hroom] at hlist
  cases hop with
  | inl hold =>
    obtain ⟨i, hi, hmem⟩ := mem_flatMap.mp hold
    by_cases hshard : i = cfg.shardIndex key
    · apply mem_pendingOps_of_mem_buffer
      rw [hlist]
      exact mem_append_left _ (hshard ▸ hmem)
    · exact mem_flatMap.mpr ⟨i, hi, by rwa [h.buffer_eq, if_neg hshard]⟩
  | inr hnew =>
    apply mem_pendingOps_of_mem_buffer
    rw [hlist, hnew]
    exact mem_append_right _ (mem_singleton_self _)

/-! ### One operation -/

/-- An operation without its value: what it is filed under. -/
def header (op : SyncOperation) : SyncOperation :=
  { op with item := op.item.map fun item => { item with value := [] } }

theorem key_eq_of_header_eq (h : header op = header op') : op.key = op'.key := by
  have hkeys : (header op).key = (header op').key := by rw [h]
  exact hkeys

theorem opType_eq_of_header_eq (h : header op = header op') : op.opType = op'.opType := by
  have htypes : (header op).opType = (header op').opType := by rw [h]
  exact htypes

/-- Operations filed alike have the same version. -/
theorem exists_item_of_header_eq (h : header op = header op') (hitem : op.item = some item) :
    ∃ item', op'.item = some item' ∧ item'.version = item.version := by
  have hitems : (header op).item = (header op').item := congrArg SyncOperation.item h
  rw [header, header, hitem] at hitems
  cases hitem' : op'.item with
  | none => simp [hitem'] at hitems
  | some item' =>
    simp only [hitem', Option.map_some, Option.some.injEq, StoredItem.mk.injEq] at hitems
    exact ⟨item', rfl, hitems.1.symm⟩

theorem removes_fillOp (cfg : StoreConfig) (now : Time) (s : MemStorage) (op : SyncOperation) :
    Removes cfg s (s.fillOp cfg now op).1 := by
  have hget := removes_getNoCopy cfg now s op.key
  unfold fillOp
  split
  · exact .refl cfg s
  · split
    · split <;> rename_i hread
      · rw [hread] at hget
        split <;> exact hget
      · rw [hread] at hget
        exact hget
    · exact .refl cfg s

/-- Only the value of an operation is filled in. -/
theorem header_fillOp (cfg : StoreConfig) (now : Time) (s : MemStorage) (op : SyncOperation) :
    header (s.fillOp cfg now op).2 = header op := by
  unfold fillOp
  split
  · rfl
  · rename_i item hitem
    split
    · split
      · split
        · simp [header, hitem]
        · rfl
      · rfl
    · rfl

/-- An unexpired entry survives the look at any operation. -/
theorem entry_fillOp_of_fresh {now : Time} (he : entry cfg s k = some e)
    (hfresh : expiredAt now e = false) (op : SyncOperation) :
    entry cfg (s.fillOp cfg now op).1 k = some e := by
  have hget : ∀ key, entry cfg (s.getNoCopy cfg now key).1 k = some e := by
    intro key
    simp only [getNoCopy]
    split
    · exact he
    · split
      · exact he
      · rename_i e' he'
        split
        · rename_i hexpired
          rw [entry_removeFromLRU, entry_addStats, entry_erase, if_neg]
          · exact he
          · -- The entry removed is expired, so it is not this one.
            rintro ⟨rfl, -⟩
            cases he.symm.trans he'
            rw [hfresh] at hexpired
            cases hexpired
        · split <;> rw [entry_touchLRU, he]
  unfold fillOp
  split
  · exact he
  · split
    · have hk := hget op.key
      split <;> rename_i hread
      · rw [hread] at hk
        split <;> exact hk
      · rw [hread] at hk
        exact hk
    · exact he

/-- What an operation without a value gets from an unexpired, readable entry. -/
theorem fillOp_snd_of_entry {now : Time} {x : Bytes} (hitem : op.item = some item)
    (hempty : item.value = []) (hset : op.opType = .set) (hkey : op.key ≠ [])
    (he : entry cfg s op.key = some e) (hfresh : expiredAt now e = false)
    (hx : valueOf cfg e = some x) :
    (s.fillOp cfg now op).2 = { op with item := some { item with value := x } } := by
  have hread : s.getNoCopy cfg now op.key = (s.touchLRU (cfg.shardIndex op.key) op.key,
      .ok { version := e.version, expireAt := e.expireAt, value := x, key := [] }) := by
    unfold entry at he
    simp [getNoCopy, hkey, he, hfresh, hx]
  simp only [fillOp, hitem, hempty, hset, and_self, if_true, hread]
  split
  · rfl
  · rename_i hlen
    obtain rfl : x = [] := by simpa using hlen
    cases op
    cases item
    simp_all

/-! ### All operations -/

variable {I : MemStorage → Prop}

/-- `op'` is `op` after a look at some store that satisfies `I`. -/
def FilledFrom (cfg : StoreConfig) (clock : Nat → Time) (I : MemStorage → Prop)
    (op op' : SyncOperation) : Prop :=
  ∃ n t, I t ∧ op' = (t.fillOp cfg (clock n) op).2

theorem removes_fillOps (cfg : StoreConfig) (clock : Nat → Time) (n : Nat) (s : MemStorage)
    (ops : List SyncOperation) : Removes cfg s (fillOps cfg clock n s ops).1 := by
  induction ops generalizing n s with
  | nil => exact .refl cfg s
  | cons op ops ih => exact (removes_fillOp cfg (clock n) s op).trans (ih _ _)

theorem forall₂_fillOps (hfill : ∀ n t op, I t → I (t.fillOp cfg (clock n) op).1) (n : Nat)
    (hs : I s) (ops : List SyncOperation) :
    I (fillOps cfg clock n s ops).1 ∧
      List.Forall₂ (FilledFrom cfg clock I) ops (fillOps cfg clock n s ops).2 := by
  induction ops generalizing n s with
  | nil => exact ⟨hs, .nil⟩
  | cons op ops ih =>
    obtain ⟨hlast, hrest⟩ := ih (n + 1) (hfill n s op hs)
    exact ⟨hlast, .cons ⟨n, s, hs, rfl⟩ hrest⟩

/-- Draining the shards `is`, none of them twice. -/
theorem forall₂_drainShards (hfill : ∀ n t op, I t → I (t.fillOp cfg (clock n) op).1)
    (hdrain : ∀ t i, I t → I (t.drainShard i)) {is : List Nat} (hnodup : is.Nodup) (n : Nat)
    (hs : I s) :
    I (drainShards cfg clock s n is).1 ∧
      List.Forall₂ (FilledFrom cfg clock I) (is.flatMap fun i => (buffer s i).toList)
        (drainShards cfg clock s n is).2 := by
  induction is generalizing n s with
  | nil => exact ⟨hs, .nil⟩
  | cons i is ih =>
    obtain ⟨hi, hrest⟩ := nodup_cons.mp hnodup
    obtain ⟨hfilled, hops⟩ := forall₂_fillOps hfill n (hdrain s i hs) (buffer s i).toList
    obtain ⟨hlast, htail⟩ := ih hrest (n + (buffer s i).toList.length) hfilled
    refine ⟨hlast, ?_⟩
    -- The buffers of the other shards are as before when their turn comes.
    have hothers : (is.flatMap fun j => (buffer (fillOps cfg clock n (s.drainShard i)
        (buffer s i).toList).1 j).toList) = is.flatMap fun j => (buffer s j).toList := by
      apply flatMap_congr
      intro j hj
      rw [(removes_fillOps ..).buffer_eq, buffer_drainShard, if_neg]
      rintro rfl
      exact hi hj
    rw [hothers] at htail
    exact rel_append hops htail

/-- The operations `GetSyncBuffer` returns are the pending ones, each filled in from a
    store that satisfies what every step of the drain preserves. -/
theorem forall₂_getSyncBuffer (hfill : ∀ n t op, I t → I (t.fillOp cfg (clock n) op).1)
    (hdrain : ∀ t i, I t → I (t.drainShard i)) (hs : I s) :
    List.Forall₂ (FilledFrom cfg clock I) (pendingOps cfg s) (s.getSyncBuffer cfg clock).2 :=
  (forall₂_drainShards hfill hdrain nodup_range 0 hs).2

private theorem exists_of_mem_right {α β : Type} {R : α → β → Prop} {as : List α} {bs : List β}
    (h : List.Forall₂ R as bs) {b : β} (hb : b ∈ bs) : ∃ a ∈ as, R a b := by
  induction h with
  | nil => exact nomatch hb
  | cons hab _ ih =>
    cases hb with
    | head => exact ⟨_, mem_cons_self, hab⟩
    | tail _ hb =>
      obtain ⟨a, ha, hr⟩ := ih hb
      exact ⟨a, mem_cons_of_mem _ ha, hr⟩

theorem exists_pending_of_mem_getSyncBuffer
    (hfill : ∀ n t op, I t → I (t.fillOp cfg (clock n) op).1)
    (hdrain : ∀ t i, I t → I (t.drainShard i)) (hs : I s)
    (h : op' ∈ (s.getSyncBuffer cfg clock).2) :
    ∃ op ∈ pendingOps cfg s, FilledFrom cfg clock I op op' :=
  exists_of_mem_right (forall₂_getSyncBuffer hfill hdrain hs) h

/-- Every pending operation is handed out. -/
theorem exists_mem_getSyncBuffer (clock : Nat → Time) (h : op ∈ pendingOps cfg s) :
    ∃ op' ∈ (s.getSyncBuffer cfg clock).2, header op' = header op := by
  have hall : List.Forall₂ (FilledFrom cfg clock fun _ => True) (pendingOps cfg s)
      (s.getSyncBuffer cfg clock).2 :=
    forall₂_getSyncBuffer (fun _ _ _ _ => trivial) (fun _ _ _ => trivial) trivial
  obtain ⟨op', hop', n, t, -, rfl⟩ := exists_of_mem_right hall.flip h
  exact ⟨_, hop', header_fillOp ..⟩

theorem getSyncBuffer_fst_of (hfill : ∀ n t op, I t → I (t.fillOp cfg (clock n) op).1)
    (hdrain : ∀ t i, I t → I (t.drainShard i)) (hs : I s) : I (s.getSyncBuffer cfg clock).1 :=
  (forall₂_drainShards hfill hdrain nodup_range 0 hs).1

/-! ### What a drain leaves behind -/

theorem entry_of_entry_getSyncBuffer (h : entry cfg (s.getSyncBuffer cfg clock).1 k = some e) :
    entry cfg s k = some e := by
  refine getSyncBuffer_fst_of
    (I := fun t => ∀ e, entry cfg t k = some e → entry cfg s k = some e) ?_ ?_ (fun _ h => h) e h
  · intro n t op ht e he
    exact ht e ((removes_fillOp cfg (clock n) t op).entry_of_entry he)
  · intro t i ht e he
    exact ht e (by simpa using he)

/-- Nothing is pending after a drain. -/
theorem pendingOps_getSyncBuffer : pendingOps cfg (s.getSyncBuffer cfg clock).1 = [] := by
  have hdrained : ∀ (is : List Nat) (n : Nat) (s : MemStorage) (j : Nat),
      (j ∈ is ∨ (buffer s j).toList = []) →
      (buffer (drainShards cfg clock s n is).1 j).toList = [] := by
    intro is
    induction is with
    | nil => intro n s j hj; simpa [drainShards] using hj
    | cons i is ih =>
      intro n s j hj
      apply ih
      rw [(removes_fillOps ..).buffer_eq, buffer_drainShard]
      by_cases hji : j = i
      · simp [hji]
      · simpa [hji] using hj
  rw [pendingOps, flatMap_eq_nil_iff]
  intro i hi
  exact hdrained _ _ _ _ (.inl hi)

theorem mem_buffer_getSyncBuffer {i : Nat}
    (h : op ∈ (buffer (s.getSyncBuffer cfg clock).1 i).toList) : op ∈ (buffer s i).toList := by
  refine getSyncBuffer_fst_of
    (I := fun t => ∀ op ∈ (buffer t i).toList, op ∈ (buffer s i).toList) ?_ ?_ (fun _ h => h) op h
  · intro n t op ht
    rwa [(removes_fillOp cfg (clock n) t op).buffer_eq]
  · intro t j ht op hop
    rw [buffer_drainShard] at hop
    split at hop
    · simp at hop
    · exact ht op hop

end MemStorage

end GridKV
