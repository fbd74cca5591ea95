import GridKV.Model.Compress

/-!
# Which blocks decompress

The decompressor tries two buffers, the second four times the caller's estimate of the
original size.  Neither depends on what the pools contain: a pooled buffer is always
below the allocation cap of 8 MiB.  So a block decompresses exactly when the original
fits the second buffer (`decompressTo_eq`).
-/

namespace GridKV

open Go

variable (lz4 : LZ4) (cap : CompressCap) {block src : Bytes} {dst : Nat}

/-- Largest buffer the decompressor is ever given. -/
def maxDecompressBuffer : Nat := 8 * 1024 * 1024

/-- The slice handed out does not depend on the pool. -/
theorem getFromTier_eq {cap : Nat} (hcap : cap ≤ maxDecompressBuffer) (size : Nat) :
    getFromTier cap size = min size maxDecompressBuffer := by
  simp only [getFromTier, maxDecompressBuffer] at hcap ⊢
  split
  · split <;> omega
  · omega

theorem getDecompress_eq (cap : PooledCap) (size : Nat) :
    getDecompress cap size = min (size + 64) maxDecompressBuffer :=
  getFromTier_eq (Nat.le_trans cap.property (by decide)) _

theorem normEstimate_pos (h : block ≠ []) (estimate : Int) : 0 < normEstimate block estimate := by
  have hpos : 0 < block.length := List.length_pos_iff.mpr h
  simp only [normEstimate]
  split <;> split <;> split <;> omega

/-- Decompressing a block without a caller's buffer succeeds exactly when the original
    fits the second buffer. -/
theorem decompressTo_eq {lz4 : LZ4} (hlz4 : lz4.Lawful)
    (hblock : lz4.compressBlock src dst = some block) (hne : block ≠ []) (cap₁ cap₂ : PooledCap)
    (estimate : Int) :
    decompressTo lz4 cap₁ cap₂ block 0 estimate =
      if src.length ≤ min (4 * normEstimate block estimate + 64) maxDecompressBuffer
      then some src else none := by
  have hpos := normEstimate_pos hne estimate
  simp only [decompressTo, getDecompress_eq]
  rw [if_neg (by omega), Nat.mul_comm (normEstimate block estimate) 4]
  -- The first buffer is never longer than the second, so it decides nothing alone.
  by_cases hfirst : src.length ≤ min (normEstimate block estimate + 64) maxDecompressBuffer
  · rw [hlz4.uncompress_of_le hblock hne hfirst, if_pos (by omega)]
  · rw [hlz4.uncompress_of_lt hblock hne (Nat.lt_of_not_le hfirst)]
    by_cases hsnd : src.length ≤ min (4 * normEstimate block estimate + 64) maxDecompressBuffer
    · rw [if_pos hsnd]
      exact hlz4.uncompress_of_le hblock hne hsnd
    · rw [if_neg hsnd]
      exact hlz4.uncompress_of_lt hblock hne (Nat.lt_of_not_le hsnd)

/-! ### Two callers -/

theorem normEstimate_four_mul (h : block ≠ []) :
    normEstimate block (block.length * 4) = min (block.length * 4) (64 * 1024 * 1024) := by
  have hpos : 0 < block.length := List.length_pos_iff.mpr h
  simp only [normEstimate]
  split <;> split <;> split <;> omega

/-- The network decoder does not know the original size and guesses from the block. -/
theorem decompressTo_block {lz4 : LZ4} (hlz4 : lz4.Lawful)
    (hblock : lz4.compressBlock src dst = some block) (hne : block ≠ []) (cap₁ cap₂ : PooledCap) :
    decompressTo lz4 cap₁ cap₂ block 0 (block.length * 4) =
      if src.length ≤ min (16 * block.length + 64) maxDecompressBuffer then some src else none := by
  have hroom : min (4 * min (block.length * 4) (64 * 1024 * 1024) + 64) maxDecompressBuffer =
      min (16 * block.length + 64) maxDecompressBuffer := by
    rw [maxDecompressBuffer]
    omega
  rw [decompressTo_eq hlz4 hblock hne, normEstimate_four_mul hne, hroom]

/-- The store remembers the original size, so only the allocation cap stands in the way. -/
theorem decompressTo_origSize {lz4 : LZ4} (hlz4 : lz4.Lawful)
    (hblock : lz4.compressBlock src dst = some block) (hne : block ≠ []) (cap₁ cap₂ : PooledCap)
    {estimate : Int} (hestimate : src.length ≤ estimate) :
    decompressTo lz4 cap₁ cap₂ block 0 estimate =
      if src.length ≤ maxDecompressBuffer then some src else none := by
  have hpos : 0 < block.length := List.length_pos_iff.mpr hne
  have hnorm : min src.length (64 * 1024 * 1024) ≤ normEstimate block estimate := by
    simp only [normEstimate]
    split <;> split <;> split <;> omega
  have hroom : src.length ≤ min (4 * normEstimate block estimate + 64) maxDecompressBuffer ↔
      src.length ≤ maxDecompressBuffer := by
    rw [maxDecompressBuffer]
    omega
  rw [decompressTo_eq hlz4 hblock hne]
  simp only [hroom]

/-- The codec on inputs too short for any block to be smaller. -/
def shortInputLZ4 : LZ4 where
  compressBlockBound n := n + n / 255 + 16
  compressBlock _ _ := none
  uncompressBlock _ _ := none

theorem shortInputLZ4_lawful : shortInputLZ4.Lawful where
  le_bound n := by
    simp only [shortInputLZ4]
    omega
  uncompress_of_le h := nomatch h
  uncompress_of_lt h := nomatch h

end GridKV
