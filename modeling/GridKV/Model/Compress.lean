import GridKV.ForStd.Go

/-!
# Block compression with pooled, capped buffers

Translation of `internal/utils/compress`.  The LZ4 block codec itself is a library
outside the repository, so it is a parameter: `LZ4` has its functions and
`LZ4.Lawful` what its documentation promises.  The buffer pools hand out buffers of
unpredictable capacity; only the length of the slice the decompressor gets matters,
and that is computed here exactly as the code does.
-/

namespace GridKV

open Go

/-- The functions of the LZ4 block library.  A result is `none` when the call
    returns an error; the byte count it returns is the length of the result. -/
structure LZ4 where
  compressBlockBound : Nat → Nat
  /-- `CompressBlock(src, dst, nil)` with `len(dst)` as second argument. -/
  compressBlock : Bytes → Nat → Option Bytes
  /-- `UncompressBlock(src, dst)` with `len(dst)` as second argument. -/
  uncompressBlock : Bytes → Nat → Option Bytes

/-- What the LZ4 library documents: the bound leaves room for incompressible input,
    and a block of `n > 0` bytes uncompresses to the original in every buffer that
    is long enough and fails in every shorter one. -/
structure LZ4.Lawful (lz4 : LZ4) : Prop where
  le_bound : ∀ n, n ≤ lz4.compressBlockBound n
  uncompress_of_le : ∀ {src block : Bytes} {dst n : Nat}, lz4.compressBlock src dst = some block →
    block ≠ [] → src.length ≤ n → lz4.uncompressBlock block n = some src
  uncompress_of_lt : ∀ {src block : Bytes} {dst n : Nat}, lz4.compressBlock src dst = some block →
    block ≠ [] → n < src.length → lz4.uncompressBlock block n = none

/-! ### The buffer pool -/

/-- Largest capacity `putToTier` keeps. -/
def maxPoolSize : Nat := 2 * 1024 * 1024

/-- The capacity of a buffer in a decompression pool: one the pool made itself, or
    one `putToTier` let in. -/
abbrev PooledCap := { c : Nat // c ≤ maxPoolSize }

/-- The capacity of a buffer in a compression pool, whose largest tier makes buffers
    that `putToTier` does not take back. -/
abbrev CompressCap := { c : Nat // c ≤ 4 * 1024 * 1024 }

/-- Tier of a size or capacity. -/
def tierOf (size : Nat) : Fin 3 :=
  if size > 256 * 1024 then (if size > 512 * 1024 then 2 else 1) else 0

/-- The buffers the `New` functions of the decompression pools make. -/
def newDecompressCap (tier : Fin 3) : PooledCap :=
  match tier with
  | 0 => ⟨256 * 1024, by decide⟩
  | 1 => ⟨512 * 1024, by decide⟩
  | 2 => ⟨2 * 1024 * 1024, by decide⟩

/-- The buffers the `New` functions of the compression pools make. -/
def newCompressCap (tier : Fin 3) : CompressCap :=
  match tier with
  | 0 => ⟨256 * 1024, by decide⟩
  | 1 => ⟨1024 * 1024, by decide⟩
  | 2 => ⟨4 * 1024 * 1024, by decide⟩

/-- A new buffer of the smallest tier for decompression. -/
def smallDecompressCap : PooledCap := newDecompressCap 0

/-- A new buffer of the smallest tier for compression. -/
def smallCompressCap : CompressCap := newCompressCap 0

/-- `putToTier`: the tier a returned buffer is filed under, if it is kept. -/
def putToTier (cap : Nat) : Option (Fin 3 × PooledCap) :=
  if h : cap > maxPoolSize then none else some (tierOf cap, ⟨cap, Nat.le_of_not_lt h⟩)

/-- `getFromTier`: the length of the slice handed out for `size` when the pool gives
    a buffer of capacity `cap`. -/
def getFromTier (cap size : Nat) : Nat :=
  if cap < size then
    let maxAlloc := 8 * 1024 * 1024
    if size > maxAlloc then maxAlloc else size
  else size

/-- `Pool.GetDecompress` -/
def getDecompress (cap : PooledCap) (size : Nat) : Nat := getFromTier cap.val (size + 64)

/-- `Pool.GetCompress` -/
def getCompress (lz4 : LZ4) (cap : CompressCap) (size : Nat) : Nat :=
  getFromTier cap.val (lz4.compressBlockBound size)

/-! ### Compression and decompression -/

/-- `compress.Compress`, into a pooled buffer: `none` stands for handing the original
    back. -/
def compress (lz4 : LZ4) (cap : CompressCap) (data : Bytes) (threshold : Int) : Option Bytes :=
  if data.length < threshold then none
  else
    match lz4.compressBlock data (getCompress lz4 cap data.length) with
    | none => none
    | some block =>
      if block.length = 0 then none
      else if block.length < data.length * 95 / 100 then some block
      else none

/-- `compress.CompressTo` with a destination of capacity at least the bound. -/
def compressTo (lz4 : LZ4) (data : Bytes) (threshold : Nat) : Option Bytes :=
  if data.length < threshold then none
  else
    match lz4.compressBlock data (lz4.compressBlockBound data.length) with
    | none => none
    | some block =>
      if block.length = 0 then none
      else if block.length < data.length * 95 / 100 then some block
      else none

/-- `normEstimate` -/
def normEstimate (data : Bytes) (estimatedSize : Int) : Nat :=
  let estimatedSize := if estimatedSize ≤ 0 then (data.length * 2 : Int) else estimatedSize
  let estimatedSize :=
    if estimatedSize < data.length * 2 then (data.length * 2 : Int) else estimatedSize
  let maxEstimate := 64 * 1024 * 1024
  let estimatedSize := if estimatedSize > maxEstimate then maxEstimate else estimatedSize
  estimatedSize.toNat

/-- `compress.DecompressTo`: one attempt in the caller's buffer of capacity `dstCap`
    or a pooled one, and a second in a pooled buffer four times the estimate.
    `cap₁` and `cap₂` are the capacities the pool answers with. -/
def decompressTo (lz4 : LZ4) (cap₁ cap₂ : PooledCap) (data : Bytes) (dstCap : Nat)
    (estimatedSize : Int) : Option Bytes :=
  let est := normEstimate data estimatedSize
  let bufLen := if dstCap ≥ est then est else getDecompress cap₁ est
  match lz4.uncompressBlock data bufLen with
  | some out => some out
  | none => lz4.uncompressBlock data (getDecompress cap₂ (est * 4))

end GridKV
