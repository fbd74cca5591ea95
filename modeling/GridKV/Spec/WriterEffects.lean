import GridKV.Model.Writer
import GridKV.Spec.StoreEntries

/-!
# What the write methods do

`Set` and `Delete` of the writer end in `storeOrQueue`; the batching around it changes
neither the store nor the remembered versions nor the queue.
-/

namespace GridKV

open Go MemStorage

/-- The next version wraps around after the largest one. -/
theorem toInt_add_one (v : Int64) :
    (v + 1).toInt = if v.toInt = 2 ^ 63 - 1 then -2 ^ 63 else v.toInt + 1 := by
  have hlow := v.le_toInt
  have hhigh := v.toInt_lt
  have hone : (1 : Int64).toInt = 1 := rfl
  rw [Int64.toInt_add, Int.bmod_def, hone]
  split <;> split <;> omega

namespace Writer

variable (cfg : NodeConfig) (w : Writer) (accepts : Nat → Bool)

@[simp] theorem lastVersions_flushAsync : (w.flushAsync accepts).lastVersions = w.lastVersions := by
  unfold flushAsync
  split
  · rfl
  · split <;> rfl

@[simp] theorem lastVersions_triggerBatch :
    (w.triggerBatch cfg accepts).lastVersions = w.lastVersions := by
  simp only [triggerBatch]
  repeat' split
  all_goals simp

@[simp] theorem pendingOps_triggerBatch :
    (w.triggerBatch cfg accepts).pendingOps = w.pendingOps := by
  have hflush : ∀ w : Writer, (w.flushAsync accepts).pendingOps = w.pendingOps := by
    intro w
    unfold flushAsync
    split
    · rfl
    · split <;> rfl
  simp only [triggerBatch]
  repeat' split
  all_goals simp [hflush]

theorem lookup_of_lookup_cleanup {versions : GoMap Int64} {visit : List GoString} {key : GoString}
    {v : Int64} (h : (cleanup versions visit).lookup key = some v) :
    versions.lookup key = some v := by
  unfold cleanup at h
  split at h
  · -- Erasing a key can only lose the binding.
    refine List.foldlRecOn (motive := fun kept : GoMap Int64 =>
      kept.lookup key = some v → versions.lookup key = some v) _ _ id (fun kept hkept k _ hk => ?_) h
    by_cases hkey : key = k
    · rw [hkey, AList.lookup_erase] at hk
      exact nomatch hk
    · rw [AList.lookup_erase_ne hkey] at hk
      exact hkept hk
  · exact h

end Writer

namespace Node

variable {cfg : NodeConfig} {node : Node} {key : GoString} (accepts : Nat → Bool)
  (out : Node × Option WriteError) {item : StoredItem} {reading : Int64} {visit : List GoString}

theorem store_finish : (finish cfg accepts out).1.store = out.1.store := by
  obtain ⟨node, err⟩ := out
  cases err <;> rfl

theorem lastVersions_finish :
    (finish cfg accepts out).1.writer.lastVersions = out.1.writer.lastVersions := by
  obtain ⟨node, err⟩ := out
  cases err <;> simp [finish]

theorem pendingOps_finish :
    (finish cfg accepts out).1.writer.pendingOps = out.1.writer.pendingOps := by
  obtain ⟨node, err⟩ := out
  cases err <;> simp [finish]

theorem finish_snd : (finish cfg accepts out).2 = out.2 := by
  obtain ⟨node, err⟩ := out
  cases err <;> rfl

/-- `storeOrQueue` stores locally unless the key has no replicas. -/
theorem store_storeOrQueue (key : GoString) (item : StoredItem) (opType : OpType)
    (accepts : Nat → Bool) :
    (node.storeOrQueue cfg key item opType accepts).1.store =
      if cfg.replicas key = [] then node.store
      else (node.store.set cfg.store key (some item)).1 := by
  simp only [storeOrQueue]
  split
  · rfl
  · split <;> simp [*]

theorem lastVersions_storeOrQueue (key : GoString) (item : StoredItem) (opType : OpType)
    (accepts : Nat → Bool) :
    (node.storeOrQueue cfg key item opType accepts).1.writer.lastVersions =
      node.writer.lastVersions := by
  simp only [storeOrQueue]
  split
  · rfl
  · split <;> simp

theorem storeOrQueue_snd_eq_none {opType : OpType} {accepts : Nat → Bool}
    (h : (node.storeOrQueue cfg key item opType accepts).2 = none) :
    cfg.replicas key ≠ [] ∧ (node.store.set cfg.store key (some item)).2 = none := by
  simp only [storeOrQueue] at h
  split at h
  · exact nomatch h
  · rename_i hne
    split at h
    · exact nomatch h
    · rename_i hset
      exact ⟨hne, by rw [hset]⟩

/-- Both write methods end in `storeOrQueue`, so what the store holds for a key afterwards
    was there before or is the item written. -/
theorem entry_of_entry_storeOrQueue {k : GoString} {opType : OpType} {accepts : Nat → Bool}
    {e : CompressedItem} (h : entry cfg.store (finish cfg accepts
      (node.storeOrQueue cfg key item opType accepts)).1.store k = some e) :
    entry cfg.store node.store k = some e ∨ k = key ∧ e.version = item.version := by
  rw [store_finish, store_storeOrQueue] at h
  split at h
  · exact .inl h
  · cases entry_of_entry_set h with
    | inl hold => exact .inl hold
    | inr hnew => exact .inr ⟨hnew.1, by rw [hnew.2]; rfl⟩

/-- What `writer.Set` leaves in the store when it returns nil. -/
theorem store_set_of_nil {accepts : Nat → Bool}
    (h : (node.set cfg key item reading visit accepts).2 = none) :
    cfg.replicas key ≠ [] ∧
      (node.set cfg key item reading visit accepts).1.store =
        (node.store.set cfg.store key
          (some (versionedItem key item (node.writer.nextVersion key reading)))).1 ∧
      (node.store.set cfg.store key
        (some (versionedItem key item (node.writer.nextVersion key reading)))).2 = none := by
  simp only [set, finish_snd] at h
  obtain ⟨hreplicas, hset⟩ := storeOrQueue_snd_eq_none h
  refine ⟨hreplicas, ?_, hset⟩
  simp only [set, store_finish, store_storeOrQueue, if_neg hreplicas]

/-- The operations `writer.Set` queues are all the same: the item it stores. -/
theorem mem_pendingOps_set {accepts : Nat → Bool} {op : SyncOperation}
    (h : op ∈ (node.set cfg key item reading visit accepts).1.writer.pendingOps) :
    op ∈ node.writer.pendingOps ∨ op =
      { key
        opType := .set
        item := some (versionedItem key item (node.writer.nextVersion key reading)) } := by
  simp only [set, pendingOps_finish, storeOrQueue] at h
  split at h
  · exact .inl h
  · split at h
    · exact .inl h
    · simp only [Writer.pendingOps_triggerBatch, List.mem_append, List.mem_map] at h
      cases h with
      | inl hold => exact .inl hold
      | inr hnew =>
        obtain ⟨_, -, rfl⟩ := hnew
        exact .inr rfl

end Node

end GridKV
