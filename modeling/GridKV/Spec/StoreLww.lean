import GridKV.ForStd.Lww
import GridKV.Model.Gossip
import GridKV.Model.Reader
import GridKV.Spec.StoreEntries

/-!
# The store as one last-write-wins register for each key

While the memory limit is out of reach nothing is evicted, and while no entry is expired
nothing is removed by reading.  Then `Set` and `applyOps` do to the entry of a key
exactly what an offer does to a last-write-wins register (`entry_set_of_hasMemory`,
`entry_applyOp`), and a read returns what the register holds, at the node itself
(`getNoCopy_of_entry`) or from another one (`remoteGet_of_entry`).
-/

namespace GridKV

open Go Endian List

variable {cfg : NodeConfig} {now : Time} {clock : Nat → Time} {n : Nat} {s : MemStorage}
  {fetch : GoString → Option (Option StoredItem)} {alive : GoString → Bool} {key : GoString}
  {item : StoredItem}

namespace MemStorage

variable {cfg : StoreConfig} {s : MemStorage} {key : GoString} {now : Time} {item : StoredItem}

/-- The version of an entry, as the integer it is compared as. -/
def versionOf (e : CompressedItem) : Int := e.version.toInt

/-- The item fits below the memory limit. -/
def HasMemory (cfg : StoreConfig) (s : MemStorage) (key : GoString) (item : StoredItem) : Prop :=
  cfg.maxMemoryMB ≤ 0 ∨ cfg.asyncEviction ∧
    s.totals.bytes + calculateItemSize key (prepareCompressedItem cfg item).value ≤
      cfg.maxMemoryMB * 1024 * 1024

/-- No entry of the key is expired at a reading of the clock. -/
def Unexpired (cfg : StoreConfig) (now : Time) (s : MemStorage) (key : GoString) : Prop :=
  ∀ e, entry cfg s key = some e → expiredAt now e = false

/-! ### Writing -/

theorem makeRoom_of_hasMemory (h : HasMemory cfg s key item) :
    s.makeRoom cfg key (prepareCompressedItem cfg item) = (s, none) := by
  unfold makeRoom
  split
  · rename_i hlimit
    obtain hnone | ⟨hasync, hfits⟩ := h
    · exact absurd hlimit (Int64.not_lt.mpr hnone)
    · simp only [checkAndEvict, hasync, if_true]
      split
      · rfl
      · rw [if_neg (Int64.not_lt.mpr hfits)]
  · rfl

/-- The memory check of a `Set` of the item neither refuses it nor evicts anything. -/
def RoomFor (cfg : StoreConfig) (s : MemStorage) (key : GoString) (item : StoredItem) : Prop :=
  (s.makeRoom cfg key (prepareCompressedItem cfg item)).2 = none ∧
    ∀ k, entry cfg (s.makeRoom cfg key (prepareCompressedItem cfg item)).1 k = entry cfg s k

theorem HasMemory.roomFor (h : HasMemory cfg s key item) : RoomFor cfg s key item := by
  rw [RoomFor, makeRoom_of_hasMemory h]
  exact ⟨rfl, fun _ => rfl⟩

/-- The conflict rule of the store is the offer to a register. -/
theorem entry_storeItem (item : StoredItem) (k : GoString) :
    entry cfg (s.storeItemWithConflictResolution cfg key (prepareCompressedItem cfg item) item) k =
      if k = key then Lww.put versionOf (entry cfg s key) (prepareCompressedItem cfg item)
      else entry cfg s k := by
  have hversion : (prepareCompressedItem cfg item).version = item.version := rfl
  -- `accepts` compares versions as `Int64`, the register as integers.
  by_cases haccepts : accepts cfg s key item.version
  · rw [(installs_of_accepts haccepts).entry_eq]
    congr 1
    unfold accepts at haccepts
    unfold Lww.put
    split
    · rfl
    · rename_i e he
      simp only [he, decide_eq_true_eq, Int64.lt_iff_toInt_lt] at haccepts
      rw [if_pos (by rwa [versionOf, versionOf, hversion])]
  · rw [storeItem_of_not_accepts haccepts]
    split
    · subst k
      unfold accepts at haccepts
      unfold Lww.put
      split
      · rename_i hnone
        simp [hnone] at haccepts
      · rename_i e he
        simp only [he, decide_eq_true_eq, Int64.lt_iff_toInt_lt] at haccepts
        rw [if_neg (by rwa [versionOf, versionOf, hversion]), he]
    · rfl

/-- `Set` with room for the item offers it to the register of its key. -/
theorem entry_set_of_roomFor (hkey : key ≠ []) (h : RoomFor cfg s key item) (k : GoString) :
    entry cfg (s.set cfg key (some item)).1 k =
      if k = key then Lww.put versionOf (entry cfg s key) (prepareCompressedItem cfg item)
      else entry cfg s k := by
  rw [set_of_ne_nil hkey, h.1]
  simp only [entry_storeItem, h.2]

/-- `Set` with memory to spare offers the item to the register of its key. -/
theorem entry_set_of_hasMemory (hkey : key ≠ []) (h : HasMemory cfg s key item) (k : GoString) :
    entry cfg (s.set cfg key (some item)).1 k =
      if k = key then Lww.put versionOf (entry cfg s key) (prepareCompressedItem cfg item)
      else entry cfg s k :=
  entry_set_of_roomFor hkey h.roomFor k

/-- A `Set` that returns nil leaves the register at the version of its item or above. -/
theorem reached_of_set_eq_none (h : (s.set cfg key (some item)).2 = none) :
    Lww.Reached versionOf (entry cfg (s.set cfg key (some item)).1 key) item.version.toInt := by
  obtain ⟨hkey, hroom⟩ := set_snd_eq_none_iff.mp h
  rw [set_of_ne_nil hkey, hroom]
  simp only [entry_storeItem, if_true]
  exact Lww.reached_put versionOf _ (prepareCompressedItem cfg item)

/-! ### Reading -/

/-- Reading an unexpired key changes no entry and no total. -/
theorem getNoCopy_fst_of_unexpired (h : Unexpired cfg now s key) :
    (∀ k, entry cfg (s.getNoCopy cfg now key).1 k = entry cfg s k) ∧
      (s.getNoCopy cfg now key).1.totals = s.totals := by
  simp only [getNoCopy]
  split
  · exact ⟨fun _ => rfl, rfl⟩
  · split
    · exact ⟨fun _ => rfl, rfl⟩
    · rename_i e he
      rw [if_neg (by simp [h e he])]
      split <;> exact ⟨fun _ => entry_touchLRU _ _ _, rfl⟩

/-- A read returns the version of the entry, if it returns anything. -/
theorem version_of_getNoCopy_eq_ok (h : (s.getNoCopy cfg now key).2 = .ok item) :
    ∃ e, entry cfg s key = some e ∧ e.version = item.version := by
  simp only [getNoCopy] at h
  split at h
  · cases h
  · split at h
    · cases h
    · rename_i e he
      split at h
      · cases h
      · split at h <;> cases h
        exact ⟨e, he, rfl⟩

/-- A read that fails finds no entry, an expired one, which it removes, or one whose value
    cannot be decompressed. -/
theorem getNoCopy_error_cases {err : StoreError} (hkey : key ≠ [])
    (h : (s.getNoCopy cfg now key).2 = .error err) :
    (err = .notFound ∧ entry cfg s key = none) ∨
    (err = .expired ∧ entry cfg (s.getNoCopy cfg now key).1 key = none ∧
      ∃ e, entry cfg s key = some e) ∨
    (err = .decompressFailed ∧ ∃ e, entry cfg s key = some e ∧ expiredAt now e = false ∧
      valueOf cfg e = none) := by
  unfold getNoCopy at h ⊢
  simp only [if_neg hkey] at h ⊢
  cases hentry : (s.shards (cfg.shardIndex key)).data.lookup key with
  | none =>
    simp only [hentry, Except.error.injEq] at h
    exact .inl ⟨h.symm, hentry⟩
  | some e =>
    simp only [hentry] at h ⊢
    by_cases hexpired : expiredAt now e
    · simp only [if_pos hexpired, Except.error.injEq] at h ⊢
      refine .inr (.inl ⟨h.symm, ?_, e, hentry⟩)
      simp [entry_removeFromLRU, entry_addStats, entry_erase]
    · simp only [if_neg hexpired] at h ⊢
      cases hvalue : valueOf cfg e with
      | none =>
        simp only [hvalue, Except.error.injEq] at h
        exact .inr (.inr ⟨h.symm, e, hentry, by simpa using hexpired, hvalue⟩)
      | some value =>
        simp only [hvalue] at h
        cases h

theorem readable_prepareCompressedItem (h : item.value.length ≤ maxDecompressBuffer) :
    Readable (prepareCompressedItem cfg item) :=
  fun _ => h

/-- A read of an unexpired entry returns the item it was made from. -/
theorem getNoCopy_of_entry (hlz4 : cfg.lz4.Lawful) (hkey : key ≠ [])
    (he : entry cfg s key = some (prepareCompressedItem cfg item))
    (hfresh : expiredAt now (prepareCompressedItem cfg item) = false)
    (hsize : item.value.length ≤ maxDecompressBuffer) :
    (s.getNoCopy cfg now key).2 = .ok { item with key := [] } := by
  have hvalue := valueOf_of_holds hlz4 (holds_prepareCompressedItem cfg item)
    (readable_prepareCompressedItem hsize)
  unfold entry at he
  simp only [getNoCopy, hkey, if_false, he, hfresh, Bool.false_eq_true, hvalue]
  rfl

end MemStorage

open MemStorage

/-! ### Gossip -/

/-- Applying the operation finds no expired entry, and room if it goes on to `Set`. -/
def Gossip.Calm (cfg : NodeConfig) (now : Time) (s : MemStorage) (key : GoString)
    (item : StoredItem) : Prop :=
  Unexpired cfg.store now s key ∧
    ((∀ existing, (s.getNoCopy cfg.store now key).2 = .ok existing →
      ¬ existing.version ≥ item.version) →
      RoomFor cfg.store (s.getNoCopy cfg.store now key).1 key item)

/-- A calm operation of a replicated key finds an entry that is at least as new, or goes on
    to a `Set` that has room. -/
theorem Gossip.applyOp_cases (hreplica : cfg.isReplica key) (hcalm : Calm cfg now s key item) :
    (∃ existing, (s.getNoCopy cfg.store now key).2 = .ok existing ∧
      item.version ≤ existing.version ∧
      applyOp cfg now s key item = ((s.getNoCopy cfg.store now key).1, none)) ∨
    (RoomFor cfg.store (s.getNoCopy cfg.store now key).1 key item ∧
      applyOp cfg now s key item =
        (s.getNoCopy cfg.store now key).1.set cfg.store key (some item)) := by
  cases hread : (s.getNoCopy cfg.store now key).2 with
  | ok existing =>
    by_cases hold : existing.version ≥ item.version
    · refine .inl ⟨existing, rfl, hold, ?_⟩
      simp only [applyOp, hreplica, if_true, hread, if_pos hold]
    · refine .inr ⟨hcalm.2 fun found hfound => ?_, ?_⟩
      · cases hread.symm.trans hfound
        exact hold
      · simp only [applyOp, hreplica, if_true, hread, if_neg hold]
  | error err =>
    refine .inr ⟨hcalm.2 fun found hfound => ?_, ?_⟩
    · rw [hread] at hfound
      cases hfound
    · simp only [applyOp, hreplica, if_true, hread]

/-- Applying an operation of a replicated key offers its item to the register. -/
theorem Gossip.entry_applyOp_of_calm (hreplica : cfg.isReplica key) (hkey : key ≠ [])
    (hcalm : Calm cfg now s key item) (k : GoString) :
    entry cfg.store (applyOp cfg now s key item).1 k =
      if k = key then
        Lww.put versionOf (entry cfg.store s key) (prepareCompressedItem cfg.store item)
      else entry cfg.store s k := by
  obtain ⟨hentries, -⟩ := getNoCopy_fst_of_unexpired hcalm.1
  obtain ⟨existing, hread, hold, happ⟩ | ⟨hroom, happ⟩ := applyOp_cases hreplica hcalm
  · -- The entry is at least as new, so the register would refuse the item as well.
    obtain ⟨e, he, hversion⟩ := version_of_getNoCopy_eq_ok hread
    rw [happ, hentries]
    split
    · subst k
      have hle : versionOf (prepareCompressedItem cfg.store item) ≤ versionOf e := by
        unfold versionOf
        rw [hversion]
        exact Int64.le_iff_toInt_le.mp hold
      simp only [he, Lww.put, if_neg (not_lt.mpr hle)]
    · rfl
  · rw [happ]
    simp only [entry_set_of_roomFor hkey hroom, hentries]

/-- With memory to spare and nothing expired. -/
theorem Gossip.calm_of_hasMemory (hmemory : HasMemory cfg.store s key item)
    (hfresh : Unexpired cfg.store now s key) : Calm cfg now s key item := by
  refine ⟨hfresh, fun _ => HasMemory.roomFor ?_⟩
  -- The read before the write leaves the totals the memory test looks at.
  unfold HasMemory at hmemory ⊢
  rwa [(getNoCopy_fst_of_unexpired hfresh).2]

/-- Applying an operation of a replicated key offers its item to the register. -/
theorem Gossip.entry_applyOp (hreplica : cfg.isReplica key) (hkey : key ≠ [])
    (hmemory : HasMemory cfg.store s key item) (hfresh : Unexpired cfg.store now s key)
    (k : GoString) :
    entry cfg.store (applyOp cfg now s key item).1 k =
      if k = key then
        Lww.put versionOf (entry cfg.store s key) (prepareCompressedItem cfg.store item)
      else entry cfg.store s k :=
  entry_applyOp_of_calm hreplica hkey (calm_of_hasMemory hmemory hfresh) k

theorem Gossip.applyOp_of_not_isReplica (h : ¬ cfg.isReplica key) :
    applyOp cfg now s key item = (s, none) := by
  simp [applyOp, h]

/-- A batch of one operation. -/
theorem Gossip.applyOps_singleton {op : SyncOperation} (hitem : op.item = some item) :
    applyOps cfg clock n s [some op] = applyOp cfg (clock n) s op.key item := by
  simp only [applyOps, hitem]
  cases happ : applyOp cfg (clock n) s op.key item with
  | mk t err => cases err <;> rfl

/-- A batch goes on with the store its first operation leaves, unless that failed. -/
theorem Gossip.applyOps_cons {op : Option SyncOperation} {ops : List (Option SyncOperation)}
    (h : (applyOps cfg clock n s [op]).2 = none) :
    applyOps cfg clock n s (op :: ops) =
      applyOps cfg clock (n + 1) (applyOps cfg clock n s [op]).1 ops := by
  cases op with
  | none => rfl
  | some op =>
    cases hitem : op.item with
    | none => simp only [applyOps, hitem]
    | some item =>
      rw [applyOps_singleton hitem] at h ⊢
      cases happ : applyOp cfg (clock n) s op.key item with
      | mk t err =>
        rw [happ] at h
        obtain rfl : err = none := h
        simp only [applyOps, hitem, happ]

/-! ### Remote reads -/

/-- The expiry survives the eight bytes it is sent in: there is none, or it is a positive
    number of nanoseconds in range. -/
def WireExpiry (t : Time) : Prop := t = zeroTime ∨ 0 < t ∧ t < 2 ^ 63

/-- What a decoder makes of such an expiry: no expiry is sent as 0, which is not taken for a
    time. -/
theorem decoded_of_wireExpiry {t : Time} (h : WireExpiry t) :
    (if (if t = zeroTime then (0 : Int64) else unixNano t) > 0 then
      (if t = zeroTime then (0 : Int64) else unixNano t).toInt else zeroTime) = t := by
  obtain hzero | ⟨(hlo : (0 : Int) < t), hhi⟩ := h
  · rw [if_pos hzero, if_neg (by decide), hzero]
  · have hne : t ≠ zeroTime := by
      intro hzero
      rw [hzero] at hlo
      exact absurd hlo (by decide)
    have hround : (unixNano t).toInt = t := by
      unfold unixNano
      rw [Int64.toInt_ofInt_of_le (by omega) hhi]
    rw [if_neg hne, if_pos, hround]
    rw [gt_iff_lt, Int64.lt_iff_toInt_lt, hround]
    exact hlo

/-- The fields of an answer are cut out at the offsets they were written at. -/
theorem Reader.decodeReadResponse_fields (now : Time) (key : GoString) {version expireAt len : Bytes}
    (value : Bytes) (hversion : version.length = 8) (hexpireAt : expireAt.length = 8)
    (hlen : len.length = 4) :
    decodeReadResponse now key
        (leBytes 2 0 ++ (version ++ (0 :: (expireAt ++ (len ++ value))))) =
      if leNat len > value.length then none
      else
        some (some
          { version := (UInt64.ofNat (leNat version)).toInt64
            expireAt := if (UInt64.ofNat (leNat expireAt)).toInt64 > 0 then
              (UInt64.ofNat (leNat expireAt)).toInt64.toInt else zeroTime
            value := value.take (leNat len)
            key }) := by
  -- The bytes after the key length stay opaque until a field is cut out of them.
  obtain ⟨rest, hrest⟩ : ∃ rest, rest = version ++ (0 :: (expireAt ++ (len ++ value))) := ⟨_, rfl⟩
  have hkeyLen : leNat ((leBytes 2 0 ++ rest).take 2) = 0 := by
    rw [take_left' (length_leBytes 2 0)]
    rfl
  have hlength : (leBytes 2 0 ++ rest).length = 23 + value.length := by
    simp [hrest, hversion, hexpireAt, hlen]
    omega
  have hbody : (leBytes 2 0 ++ rest).drop (2 + 0) = rest := drop_left' (length_leBytes 2 0)
  have hversionField : rest.take 8 = version := hrest ▸ take_left' hversion
  -- What is left behind each field, cut from what is left behind the one before.
  have hafterVersion : rest.drop 8 = 0 :: (expireAt ++ (len ++ value)) :=
    hrest ▸ drop_left' hversion
  have hafterType : rest.drop 9 = expireAt ++ (len ++ value) := by
    rw [← drop_drop (i := 1) (j := 8), hafterVersion]
    rfl
  have hafterExpiry : rest.drop 17 = len ++ value := by
    rw [← drop_drop (i := 8) (j := 9), hafterType, drop_left' hexpireAt]
  have hafterLen : rest.drop 21 = value := by
    rw [← drop_drop (i := 4) (j := 17), hafterExpiry, drop_left' hlen]
  rw [← hrest]
  unfold decodeReadResponse
  rw [if_neg (by omega), if_neg (by omega)]
  simp only [hkeyLen, hbody, hversionField, hafterType, hafterExpiry, hafterLen,
    take_left' hexpireAt, take_left' hlen]
  rw [if_neg (by omega)]

/-- The bytes of an answer with a value: an item read from a store carries no key. -/
theorem Reader.encodeReadResponse_of_value (hkey : item.key = []) (hvalue : item.value ≠ []) :
    encodeReadResponse item = leBytes 2 0 ++ (leBytes 8 item.version.toUInt64.toNat ++ (0 ::
      (leBytes 8 (if item.expireAt = zeroTime then (0 : Int64)
        else unixNano item.expireAt).toUInt64.toNat ++
          (leBytes 4 item.value.length ++ item.value)))) := by
  have hlive : ¬ (item.isTombstone ∨ item.value.length = 0) := by
    simp [StoredItem.isTombstone, hvalue]
  simp only [encodeReadResponse, if_neg hlive, hkey, length_nil, nil_append]

/-- An answer with a value decodes to the item it was made from. -/
theorem Reader.decodeReadResponse_encodeReadResponse (hkey : item.key = [])
    (hvalue : item.value ≠ []) (hlen : item.value.length < 2 ^ 32)
    (hexpiry : WireExpiry item.expireAt) :
    decodeReadResponse now key (encodeReadResponse item) = some (some { item with key }) := by
  have hdecoded := decoded_of_wireExpiry hexpiry
  have hvalueLen : leNat (leBytes 4 item.value.length) = item.value.length :=
    leNat_leBytes_of_lt hlen
  rw [encodeReadResponse_of_value hkey hvalue, decodeReadResponse_fields now key item.value
    (length_leBytes ..) (length_leBytes ..) (length_leBytes ..)]
  simp only [toInt64_leNat_leBytes, hvalueLen, hdecoded, gt_iff_lt, lt_irrefl, if_false,
    take_length]

/-- A remote read of an unexpired entry with a value returns the item it was made from. -/
theorem Reader.remoteGet_of_entry {cfg : StoreConfig} (hlz4 : cfg.lz4.Lawful) {remoteNow : Time}
    (hkey : key ≠ []) (he : entry cfg s key = some (prepareCompressedItem cfg item))
    (hfresh : expiredAt remoteNow (prepareCompressedItem cfg item) = false)
    (hsize : item.value.length ≤ maxDecompressBuffer) (hvalue : item.value ≠ [])
    (hexpiry : WireExpiry item.expireAt) (now : Time) :
    remoteGet cfg remoteNow now s key = some (some { item with key }) := by
  have hread := getNoCopy_of_entry hlz4 hkey he hfresh hsize
  have hanswer : (handleReadRequest cfg remoteNow s key).2 =
      encodeReadResponse { item with key := [] } := by
    simp only [handleReadRequest, length_eq_zero_iff, if_neg hkey, MemStorage.get]
    split <;> rename_i h
    · rw [h] at hread
      cases hread
      rfl
    · rw [h] at hread
      exact nomatch hread
  rw [remoteGet, hanswer]
  exact decodeReadResponse_encodeReadResponse rfl hvalue
    (Nat.lt_of_le_of_lt hsize (by decide)) hexpiry

/-! ### `reader.Get` -/

theorem Reader.get_of_local {cfg : ReaderConfig}
    (h : (s.getNoCopy cfg.store now key).2 = .ok item) :
    (Reader.get cfg now s alive fetch key).2 = .ok (some item) := by
  simp only [Reader.get, MemStorage.get]
  split <;> rename_i hread
  · rw [hread] at h
    cases h
    rfl
  · rw [hread] at h
    exact nomatch h

/-- Without a local entry the read goes to the live replicas. -/
theorem Reader.get_of_absent {cfg : ReaderConfig} (hkey : key ≠ [])
    (h : entry cfg.store s key = none) :
    (Reader.get cfg now s alive fetch key).2 = .ok (firstLive fetch
      ((cfg.ring.getN key cfg.replicaCount).filter fun t => t ≠ cfg.nodeID ∧ alive t)) := by
  have hread : s.getNoCopy cfg.store now key = (s, .error .notFound) := by
    unfold entry at h
    simp [getNoCopy, hkey, h]
  simp [Reader.get, MemStorage.get, hread]

theorem Reader.firstLive_cons {t : GoString} {ts : List GoString}
    (hfetch : fetch t = some (some item)) (hvalue : item.value ≠ []) :
    firstLive fetch (t :: ts) = some item := by
  simp [firstLive, hfetch, StoredItem.isTombstone, hvalue]

end GridKV
