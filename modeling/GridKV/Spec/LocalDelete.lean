import GridKV.Model.Cluster
import GridKV.Spec.ReadBack
import GridKV.Spec.StoreLww
import GridKV.Spec.WriterEffects

/-!
# A local delete wins

`Cluster.Delete` reads the version of the item that is there and has the writer stamp a
tombstone above it.  The stamp is repaired twice, to lie above that version and to be
positive, and neither repair undoes the other; so the store takes the tombstone, whatever the
clock reads.
-/

namespace GridKV

open Go MemStorage

namespace Node

variable {version reading : Int64}

theorem tombstoneVersion_pos (version reading : Int64) : 0 < tombstoneVersion version reading := by
  unfold tombstoneVersion
  dsimp only
  generalize (if reading ≤ version then version + 1 else reading) = newVersion
  split
  · decide
  · rename_i hpos
    exact Int64.not_le.mp hpos

/-- The repairs lift the tombstone above the version it is to replace. -/
theorem lt_tombstoneVersion (h : version < Int64.maxValue) (reading : Int64) :
    version < tombstoneVersion version reading := by
  have hnew : version < if reading ≤ version then version + 1 else reading := by
    split
    · have hmax : Int64.maxValue.toInt = 2 ^ 63 - 1 := rfl
      rw [Int64.lt_iff_toInt_lt] at h ⊢
      rw [toInt_add_one, if_neg (by omega)]
      omega
    · rename_i hlt
      exact Int64.not_le.mp hlt
  unfold tombstoneVersion
  dsimp only
  generalize (if reading ≤ version then version + 1 else reading) = newVersion at hnew
  split
  · rename_i hnonpos
    exact Int64.lt_trans (Int64.lt_of_lt_of_le hnew hnonpos) (by decide)
  · exact hnew

end Node

variable {cfg : StoreConfig} {now : Time} {s : MemStorage} {key : GoString} {e : CompressedItem}

/-- A delete of a key whose entry lies below the tombstone leaves the tombstone. -/
theorem Node.entry_delete_of_lt {cfg : NodeConfig} {node : Node} {version reading : Int64}
    {accepts : Nat → Bool} (hbelow : ∀ e, entry cfg.store node.store key = some e →
      e.version < tombstoneVersion version reading)
    (h : (node.delete cfg key version reading accepts).2 = none) :
    entry cfg.store (node.delete cfg key version reading accepts).1.store key =
      some (prepareCompressedItem cfg.store
        { version := tombstoneVersion version reading
          expireAt := zeroTime, value := [], key }) := by
  rw [delete, finish_snd] at h
  obtain ⟨hreplicas, hset⟩ := storeOrQueue_snd_eq_none h
  obtain ⟨hkey, hroom⟩ := set_snd_eq_none_iff.mp hset
  -- The memory check may remove the entry of the key, but puts nothing in its place.
  have hstores : setStores cfg.store node.store key
      { version := tombstoneVersion version reading, expireAt := zeroTime, value := [], key } := by
    refine decide_eq_true ⟨hkey, hroom, ?_⟩
    unfold MemStorage.accepts
    split
    · rfl
    · rename_i e he
      exact decide_eq_true (hbelow e ((removes_makeRoom ..).entry_of_entry he))
  rw [delete, store_finish, store_storeOrQueue, if_neg hreplicas,
    (set_of_setStores hstores).2.entry_eq, if_pos rfl]

/-- The item with compression off: the bytes as they are. -/
theorem MemStorage.prepareCompressedItem_of_disabled (h : cfg.compressionEnabled = false)
    (item : StoredItem) :
    prepareCompressedItem cfg item =
      { version := item.version, expireAt := item.expireAt, value := item.value,
        compressed := false, origSize := item.value.length } := by
  simp [prepareCompressedItem, h]

/-- With compression off the store answers with any entry that has not expired. -/
theorem MemStorage.get_of_uncompressed (hkey : key ≠ []) (he : entry cfg s key = some e)
    (hplain : e.compressed = false) (hfresh : expiredAt now e = false) :
    (s.get cfg now key).2 =
      .ok { version := e.version, expireAt := e.expireAt, value := e.value, key := [] } := by
  rw [get_of_entry hkey he hfresh, valueOf, if_neg (by simp [hplain])]

/-- A read of an expired entry removes it. -/
theorem MemStorage.entry_get_of_expired (hkey : key ≠ []) (he : entry cfg s key = some e)
    (hexpired : expiredAt now e = true) :
    (s.get cfg now key).2 = .error .expired ∧ entry cfg (s.get cfg now key).1 key = none := by
  have hlookup : (s.shards (cfg.shardIndex key)).data.lookup key = some e := he
  have hget : s.get cfg now key =
      (((s.erase (cfg.shardIndex key) key).addStats (cfg.shardIndex key)
        { keys := -1 }).removeFromLRU (cfg.shardIndex key) key, .error .expired) := by
    simp only [get, getNoCopy, if_neg hkey, hlookup, if_pos hexpired]
  rw [hget]
  exact ⟨rfl, by simp [entry_removeFromLRU, entry_addStats, entry_erase]⟩

namespace Config

variable {cfg : Config} {now : Time} {node : Node} {key : GoString} {reading : Int64}
  {accepts : Nat → Bool}

/-- The version that `Cluster.Delete` hands to the writer. -/
def deleteVersion (cfg : Config) (now : Time) (node : Node) (key : GoString) : Int64 :=
  match (node.store.get cfg.store now key).2 with
  | .ok item => item.version
  | .error _ => 0

theorem delete_eq (cfg : Config) (now : Time) (node : Node) (key : GoString) (reading : Int64)
    (accepts : Nat → Bool) :
    cfg.delete now node key reading accepts =
      Node.delete cfg.writer { node with store := (node.store.get cfg.store now key).1 } key
        (cfg.deleteVersion now node key) reading accepts := by
  unfold delete deleteVersion
  split <;> rename_i hget <;> rw [hget]

/-- What the read of `Cluster.Delete` leaves in the store is not above the version it hands to
    the writer. -/
theorem version_eq_of_entry_get {e : CompressedItem} (hkey : key ≠ [])
    (hplain : ∀ e, entry cfg.store node.store key = some e → e.compressed = false)
    (he : entry cfg.store (node.store.get cfg.store now key).1 key = some e) :
    e.version = cfg.deleteVersion now node key := by
  have hbefore := (removes_getNoCopy cfg.store now node.store key).entry_of_entry he
  unfold deleteVersion
  cases hget : (node.store.get cfg.store now key).2 with
  | ok item =>
    obtain ⟨e', he', hversion⟩ := version_of_getNoCopy_eq_ok hget
    cases hbefore.symm.trans he'
    exact hversion
  | error err =>
    rcases getNoCopy_error_cases hkey hget with
      ⟨-, hnone⟩ | ⟨-, hgone, -⟩ | ⟨-, e', he', -, hvalue⟩
    · -- Only what was there can be left.
      exact nomatch hnone.symm.trans hbefore
    · exact nomatch hgone.symm.trans he
    · rw [valueOf, if_neg (by simp [hplain e' he'])] at hvalue
      exact nomatch hvalue

theorem deleteVersion_lt (hkey : key ≠ [])
    (hversion : ∀ e, entry cfg.store node.store key = some e → expiredAt now e = false →
      e.version < Int64.maxValue) : cfg.deleteVersion now node key < Int64.maxValue := by
  unfold deleteVersion
  cases hget : (node.store.get cfg.store now key).2 with
  | ok item =>
    obtain ⟨e, he, hitem⟩ := version_of_getNoCopy_eq_ok hget
    dsimp only
    rw [← hitem]
    refine hversion e he (Bool.eq_false_iff.mpr fun hexpired => ?_)
    exact nomatch hget.symm.trans (entry_get_of_expired hkey he hexpired).1
  | error err =>
    have hzero : (0 : Int64) < Int64.maxValue := by decide
    exact hzero

/-- A delete that returns nil leaves a tombstone that is read at any time from then on.  If the
    item that was there had not expired, the tombstone lies above it; if it had, the read has
    removed it, and the tombstone replaces nothing. -/
theorem delete_wins (hcompression : cfg.store.compressionEnabled = false)
    (hplain : ∀ e, entry cfg.store node.store key = some e → e.compressed = false)
    (hversion : ∀ e, entry cfg.store node.store key = some e → expiredAt now e = false →
      e.version < Int64.maxValue)
    (h : (cfg.delete now node key reading accepts).2 = none) :
    ∃ item : StoredItem,
      (∀ later, ((cfg.delete now node key reading accepts).1.store.get cfg.store later key).2 =
        .ok item) ∧
      item.isTombstone = true ∧
      ∀ old, entry cfg.store node.store key = some old →
        if expiredAt now old then entry cfg.store (node.store.get cfg.store now key).1 key = none
        else old.version < item.version := by
  rw [delete_eq] at h ⊢
  have hkey : key ≠ [] := by
    rw [Node.delete, Node.finish_snd] at h
    exact (set_snd_eq_none_iff.mp (Node.storeOrQueue_snd_eq_none h).2).1
  have hlt := Node.lt_tombstoneVersion (deleteVersion_lt hkey hversion) reading
  -- Whatever the read has left, the tombstone is above it.
  have hentry := Node.entry_delete_of_lt (fun e he => by
    rw [version_eq_of_entry_get hkey hplain he]
    exact hlt) h
  refine ⟨{ version := _, expireAt := zeroTime, value := [], key := [] }, fun later => ?_,
    decide_eq_true ⟨rfl, Node.tombstoneVersion_pos (cfg.deleteVersion now node key) reading⟩,
    fun old hold => ?_⟩
  · have hkept := prepareCompressedItem_of_disabled hcompression
      { version := Node.tombstoneVersion (cfg.deleteVersion now node key) reading
        expireAt := zeroTime, value := [], key }
    rw [show cfg.writer.store = cfg.store from rfl, hkept] at hentry
    exact get_of_uncompressed hkey hentry rfl rfl
  · split
    · rename_i hexpired
      exact (entry_get_of_expired hkey hold hexpired).2
    · rename_i hfresh
      have hread := get_of_uncompressed hkey hold (hplain old hold) (Bool.not_eq_true _ ▸ hfresh)
      have hstored : cfg.deleteVersion now node key = old.version := by rw [deleteVersion, hread]
      rw [← hstored]
      exact hlt

/-- A node alone in its ring, with compression off. -/
def alone : Config where
  nodeID := ascii "a"
  store := { oneShard with compressionEnabled := false }
  ring := { hashHi _ := 0, nodes := [⟨0, ascii "a"⟩], sorted := by simp }
  replicaCount := 1
  batchThreshold := 200

/-- The node once it holds an item of a negative version. -/
def early : Node where
  store := (MemStorage.empty.set alone.store (ascii "k") (some (plainItem (-5) "x"))).1

/-- The clock is behind the item and reads a negative number itself. -/
theorem delete_wins_early :
    ∃ item : StoredItem,
      ((alone.delete 0 early (ascii "k") (-9) fun _ => true).1.store.get alone.store 0
        (ascii "k")).2 = .ok item ∧ item.isTombstone = true := by
  have hold : ∀ e, entry alone.store early.store (ascii "k") = some e →
      e = prepareCompressedItem alone.store (plainItem (-5) "x") :=
    fun e he => (Option.some.inj he).symm
  have hnil : (alone.delete 0 early (ascii "k") (-9) fun _ => true).2 = none := by decide
  obtain ⟨item, hread, htombstone, -⟩ :=
    delete_wins rfl (fun e he => hold e he ▸ rfl) (fun e he _ => hold e he ▸ by decide) hnil
  exact ⟨item, hread 0, htombstone⟩

end Config

end GridKV
