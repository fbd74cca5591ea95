import GridKV.Spec.StoreEntries

/-!
# Do stored values read back?

`Set` may keep a compressed block in place of the value, together with the original size, and
`Get` decompresses the block into a buffer of that size.  But no buffer is longer than the
8 MiB at which the pool caps its allocations, on the first attempt and on the second, so a
longer value that was worth compressing is accepted and cannot be read again.
-/

namespace GridKV

open Go

namespace MemStorage

variable {cfg : StoreConfig} {key : GoString} {item : StoredItem} {now : Time}

/-- `Set` keeps a block in place of the value: compression is on, the value reaches the
    threshold, and LZ4 makes it shorter by at least a twentieth. -/
def KeptAsBlock (cfg : StoreConfig) (value : Bytes) : Prop :=
  cfg.compressionEnabled ∧ cfg.compressionThresh ≤ value.length ∧
    (compress cfg.lz4 smallCompressCap value cfg.compressionThresh).isSome

theorem compressed_prepareCompressedItem :
    (prepareCompressedItem cfg item).compressed ↔ KeptAsBlock cfg item.value := by
  simp only [prepareCompressedItem, KeptAsBlock]
  split
  · rename_i h
    simp [h.1, h.2]
  · rename_i h
    simp only [Option.isSome_none, Bool.false_eq_true, false_iff]
    exact fun hkept => h ⟨hkept.1, hkept.2.1⟩

/-- A `Set` on an empty store that returns nil has stored its item. -/
theorem entry_set_empty (h : (MemStorage.empty.set cfg key (some item)).2 = none) :
    entry cfg (MemStorage.empty.set cfg key (some item)).1 key =
      some (prepareCompressedItem cfg item) := by
  obtain ⟨hkey, hroom⟩ := set_snd_eq_none_iff.mp h
  -- Making room in an empty store leaves it empty.
  have hempty : entry cfg (MemStorage.empty.makeRoom cfg key (prepareCompressedItem cfg item)).1
      key = none := by
    cases hentry : entry cfg (MemStorage.empty.makeRoom cfg key
        (prepareCompressedItem cfg item)).1 key with
    | none => rfl
    | some e => exact nomatch (removes_makeRoom ..).entry_of_entry hentry
  have hstores : setStores cfg MemStorage.empty key item := by
    simp [setStores, accepts, hkey, hroom, hempty]
  rw [(set_of_setStores hstores).2.entry_eq, if_pos rfl]

/-- What `Get` answers for a key whose entry has not expired. -/
theorem get_of_entry {s : MemStorage} {e : CompressedItem} (hkey : key ≠ [])
    (he : entry cfg s key = some e) (hfresh : expiredAt now e = false) :
    (s.get cfg now key).2 =
      match valueOf cfg e with
      | none => .error .decompressFailed
      | some value =>
        .ok { version := e.version, expireAt := e.expireAt, value, key := [] } := by
  unfold entry at he
  simp only [get, getNoCopy, hkey, if_false, he, hfresh, Bool.false_eq_true]
  cases valueOf cfg e <;> rfl

/-- The item has no expiry or its expiry has not come. -/
def Fresh (now : Time) (item : StoredItem) : Prop :=
  item.expireAt = zeroTime ∨ unixNano now ≤ unixNano item.expireAt

theorem expiredAt_prepareCompressedItem (h : Fresh now item) :
    expiredAt now (prepareCompressedItem cfg item) = false := by
  apply decide_eq_false
  rintro ⟨hexpires, hpast⟩
  obtain hnever | hlater := h
  · exact hexpires hnever
  · exact absurd hpast (Int64.not_lt.mpr hlater)

/-- A block that outgrows the decompressor is stored and cannot be read. -/
theorem get_set_empty_of_outgrown (hlz4 : cfg.lz4.Lawful)
    (hstored : (MemStorage.empty.set cfg key (some item)).2 = none) (hfresh : Fresh now item)
    (hkept : KeptAsBlock cfg item.value) (hlong : maxDecompressBuffer < item.value.length) :
    ((MemStorage.empty.set cfg key (some item)).1.get cfg now key).2 =
      .error .decompressFailed := by
  have hvalue := valueOf_eq_of_holds hlz4 (holds_prepareCompressedItem cfg item)
  rw [if_pos ⟨compressed_prepareCompressedItem.mpr hkept, hlong⟩] at hvalue
  rw [get_of_entry (set_snd_eq_none_iff.mp hstored).1 (entry_set_empty hstored)
    (expiredAt_prepareCompressedItem hfresh), hvalue]

/-- Everything else reads back. -/
theorem get_set_empty_of_fits (hlz4 : cfg.lz4.Lawful)
    (hstored : (MemStorage.empty.set cfg key (some item)).2 = none) (hfresh : Fresh now item)
    (hfits : KeptAsBlock cfg item.value → item.value.length ≤ maxDecompressBuffer) :
    ((MemStorage.empty.set cfg key (some item)).1.get cfg now key).2 =
      .ok { version := item.version, expireAt := item.expireAt, value := item.value,
            key := [] } := by
  have hreadable : Readable (prepareCompressedItem cfg item) :=
    fun hcompressed => hfits (compressed_prepareCompressedItem.mp hcompressed)
  rw [get_of_entry (set_snd_eq_none_iff.mp hstored).1 (entry_set_empty hstored)
    (expiredAt_prepareCompressedItem hfresh),
    valueOf_of_holds hlz4 (holds_prepareCompressedItem cfg item) hreadable]
  rfl

/-- `Get` after `Set` on an empty store returns the value, the version and the expiry of the
    item. -/
def ReadsBack (cfg : StoreConfig) (now : Time) (key : GoString) (item : StoredItem) : Prop :=
  ∃ got, ((MemStorage.empty.set cfg key (some item)).1.get cfg now key).2 = .ok got ∧
    got.value = item.value ∧ got.version = item.version ∧ got.expireAt = item.expireAt

/-- **Reading back.**  A stored item that has not expired reads back exactly when its value
    is at most 8 MiB long or is not kept as a block. -/
theorem readsBack_iff (hlz4 : cfg.lz4.Lawful)
    (hstored : (MemStorage.empty.set cfg key (some item)).2 = none) (hfresh : Fresh now item) :
    ReadsBack cfg now key item ↔
      (KeptAsBlock cfg item.value → item.value.length ≤ maxDecompressBuffer) := by
  constructor
  · rintro ⟨got, hgot, -⟩ hkept
    by_contra hlong
    rw [get_set_empty_of_outgrown hlz4 hstored hfresh hkept (Nat.not_le.mp hlong)] at hgot
    exact nomatch hgot
  · exact fun hfits => ⟨_, get_set_empty_of_fits hlz4 hstored hfresh hfits, rfl, rfl, rfl⟩

/-- A store without a memory limit. -/
def unlimited (lz4 : LZ4) : StoreConfig where
  hashLo _ := 0
  shardMask := 0
  maxMemoryMB := 0
  lz4 := lz4

theorem set_unlimited (lz4 : LZ4) (item : StoredItem) :
    (MemStorage.empty.set (unlimited lz4) (ascii "k") (some item)).2 = none :=
  set_snd_eq_none_iff.mpr ⟨by decide, rfl⟩

/-- A short value. -/
theorem short_value_reads_back :
    ReadsBack (unlimited shortInputLZ4) 5 (ascii "k") ⟨1, 9, ascii "value", ascii "k"⟩ ↔
      (KeptAsBlock (unlimited shortInputLZ4) (ascii "value") →
        (ascii "value").length ≤ maxDecompressBuffer) :=
  readsBack_iff shortInputLZ4_lawful (set_unlimited _ _) (.inr (by decide))

/-! ### Eight mebibytes and one byte -/

/-- 8 MiB + 1 zero bytes. -/
@[irreducible] def longZeros : Bytes := List.replicate 8388609 0

theorem length_longZeros : longZeros.length = 8388609 := by
  rw [longZeros, List.length_replicate]

/-- The block LZ4 writes for `longZeros`: a literal and a long match, two short matches,
    eleven literals. -/
@[irreducible] def longZerosBlock : Bytes :=
  [0x1F, 0x00, 0x01, 0x00] ++ List.replicate 32896 0xFF ++
    [0x5A, 0x00, 0x02, 0x00, 0x00, 0x02, 0x00, 0xB0] ++ List.replicate 11 0

theorem length_longZerosBlock : longZerosBlock.length = 32919 := by
  rw [longZerosBlock]
  repeat rw [List.length_append]
  rw [List.length_replicate, List.length_replicate]
  simp

/-- LZ4 as it behaves on `longZeros`; every other input counts as incompressible. -/
def longZerosLZ4 : LZ4 where
  compressBlockBound n := n + n / 255 + 16
  compressBlock src _ := if src = longZeros then some longZerosBlock else none
  uncompressBlock src n :=
    if src = longZerosBlock ∧ longZeros.length ≤ n then some longZeros else none

theorem longZerosLZ4_compressBlock {src block : Bytes} {dst : Nat}
    (h : longZerosLZ4.compressBlock src dst = some block) :
    src = longZeros ∧ block = longZerosBlock := by
  simp only [longZerosLZ4] at h
  split at h
  · exact ⟨‹_›, (Option.some.inj h).symm⟩
  · cases h

theorem longZerosLZ4_lawful : longZerosLZ4.Lawful where
  le_bound n := by
    simp only [longZerosLZ4]
    omega
  uncompress_of_le h _ hn := by
    obtain ⟨rfl, rfl⟩ := longZerosLZ4_compressBlock h
    exact if_pos ⟨rfl, hn⟩
  uncompress_of_lt h _ hn := by
    obtain ⟨rfl, rfl⟩ := longZerosLZ4_compressBlock h
    exact if_neg fun hc => absurd hc.2 (Nat.not_le_of_lt hn)

theorem compress_longZeros :
    compress longZerosLZ4 smallCompressCap longZeros 64 = some longZerosBlock := by
  have hblock : ∀ dst, longZerosLZ4.compressBlock longZeros dst = some longZerosBlock :=
    fun dst => if_pos rfl
  have hne : longZerosBlock.length ≠ 0 := by simp [length_longZerosBlock]
  have hshort : longZerosBlock.length < longZeros.length * 95 / 100 := by
    rw [length_longZeros, length_longZerosBlock]
    decide
  have hlong : ¬(longZeros.length : Int) < 64 := by
    rw [length_longZeros]
    decide
  simp only [compress, if_neg hlong, hblock, if_neg hne, if_pos hshort]

/-- `Set` accepts the zeros and `Get` cannot return them. -/
theorem long_value_does_not_read_back :
    longZerosLZ4.Lawful ∧ longZeros.length = 8 * 1024 * 1024 + 1 ∧
      (MemStorage.empty.set (unlimited longZerosLZ4) (ascii "k")
        (some ⟨1, zeroTime, longZeros, ascii "k"⟩)).2 = none ∧
      ((MemStorage.empty.set (unlimited longZerosLZ4) (ascii "k")
        (some ⟨1, zeroTime, longZeros, ascii "k"⟩)).1.get (unlimited longZerosLZ4) 5
          (ascii "k")).2 = .error .decompressFailed := by
  have hstored := set_unlimited longZerosLZ4 ⟨1, zeroTime, longZeros, ascii "k"⟩
  refine ⟨longZerosLZ4_lawful, length_longZeros, hstored, ?_⟩
  have hkept : KeptAsBlock (unlimited longZerosLZ4) longZeros := by
    refine ⟨rfl, ?_, ?_⟩
    · rw [length_longZeros]
      decide
    · show (compress longZerosLZ4 smallCompressCap longZeros 64).isSome
      rw [compress_longZeros]
      rfl
  have hlong : maxDecompressBuffer < longZeros.length := by
    rw [length_longZeros]
    decide
  exact get_set_empty_of_outgrown longZerosLZ4_lawful hstored (.inl rfl) hkept hlong

end MemStorage

end GridKV
