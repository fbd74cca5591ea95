import GridKV.Spec.StoreLww
import GridKV.Spec.WriterEffects

/-!
# What the write methods offer to the store

Each write method hands at most one item for a key to `MemStorage.Set`.  When the item has
room, that is an offer to the register of the key, and the other keys are left alone.
-/

namespace GridKV

open Go MemStorage

namespace Node

variable {cfg : NodeConfig} {node : Node} {key : GoString} {item : StoredItem}
  {reading version : Int64} {accepts : Nat → Bool}

/-- What `writer.Set` hands to the store, if the key has replicas. -/
def setItem (cfg : NodeConfig) (key : GoString) (node : Node) (item : StoredItem)
    (reading : Int64) : Option StoredItem :=
  if cfg.replicas key = [] then none
  else some (versionedItem key item (node.writer.nextVersion key reading))

/-- What `writer.Delete` hands to the store. -/
def deleteItem (cfg : NodeConfig) (key : GoString) (version reading : Int64) : Option StoredItem :=
  if cfg.replicas key = [] then none
  else some { version := tombstoneVersion version reading, expireAt := zeroTime, value := [], key }

/-- What `writer.BatchSet` hands to the store for one entry of the map. -/
def batchItem (cfg : NodeConfig) (key : GoString) (item : StoredItem) (version : Int64) :
    Option StoredItem :=
  if cfg.isReplica key then some (versionedItem key item version) else none

/-- The register after an item was offered to it, if there is one. -/
def afterOffer (cfg : NodeConfig) (held : Option CompressedItem) (offer : Option StoredItem) :
    Option CompressedItem :=
  match offer with
  | none => held
  | some item => Lww.put versionOf held (prepareCompressedItem cfg.store item)

/-- `storeOrQueue` offers the item, if the key has replicas. -/
theorem entry_storeOrQueue_of_room (hkey : key ≠ []) {opType : OpType}
    (hroom : cfg.replicas key ≠ [] → RoomFor cfg.store node.store key item) :
    entry cfg.store (node.storeOrQueue cfg key item opType accepts).1.store key =
      afterOffer cfg (entry cfg.store node.store key)
        (if cfg.replicas key = [] then none else some item) := by
  rw [store_storeOrQueue]
  by_cases hreplicas : cfg.replicas key = []
  · rw [if_pos hreplicas, if_pos hreplicas, afterOffer]
  · rw [if_neg hreplicas, if_neg hreplicas, afterOffer,
      entry_set_of_roomFor hkey (hroom hreplicas), if_pos rfl]

theorem entry_set_of_room (hkey : key ≠ []) {visit : List GoString}
    (hroom : ∀ x, setItem cfg key node item reading = some x →
      RoomFor cfg.store node.store key x) :
    entry cfg.store (node.set cfg key item reading visit accepts).1.store key =
      afterOffer cfg (entry cfg.store node.store key) (setItem cfg key node item reading) := by
  simp only [set, store_finish]
  exact entry_storeOrQueue_of_room hkey fun hreplicas => hroom _ (if_neg hreplicas)

theorem entry_delete_of_room (hkey : key ≠ [])
    (hroom : ∀ x, deleteItem cfg key version reading = some x →
      RoomFor cfg.store node.store key x) :
    entry cfg.store (node.delete cfg key version reading accepts).1.store key =
      afterOffer cfg (entry cfg.store node.store key) (deleteItem cfg key version reading) := by
  simp only [delete, store_finish]
  exact entry_storeOrQueue_of_room hkey fun hreplicas => hroom _ (if_neg hreplicas)

/-- One round of `writer.BatchSet`, seen from any key. -/
theorem entry_batchSetEntry_of_room {k : GoString} (hk : k ≠ [])
    (hroom : ∀ x, batchItem cfg key item version = some x → RoomFor cfg.store node.store key x) :
    entry cfg.store (node.batchSetEntry cfg key item version).store k =
      if k = key then
        afterOffer cfg (entry cfg.store node.store key) (batchItem cfg key item version)
      else entry cfg.store node.store k := by
  simp only [batchSetEntry]
  by_cases hreplica : cfg.isReplica key
  · have hreplicas : cfg.replicas key ≠ [] := by
      intro hnil
      simp [NodeConfig.isReplica, hnil] at hreplica
    simp only [batchItem, if_pos hreplica, if_neg hreplicas, afterOffer] at hroom ⊢
    by_cases hkey : key = []
    · -- The store refuses the empty key.
      simp [hkey, MemStorage.set, hk]
    · exact entry_set_of_roomFor hkey (hroom _ rfl) k
  · -- Not a replica: the operation is queued, or there is nobody to queue it for.
    simp only [batchItem, if_neg hreplica, afterOffer]
    have hheld :
        (if k = key then entry cfg.store node.store key else entry cfg.store node.store k) =
        entry cfg.store node.store k := by
      split <;> simp [*]
    rw [hheld]
    split <;> rfl

end Node

end GridKV
