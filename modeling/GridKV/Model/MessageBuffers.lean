import GridKV.Model.BufferPool
import GridKV.Model.Message

/-!
# Encoding a message in a pooled buffer

Translation of `encodeMessage` in `internal/network/interface.go` with the buffers it works
in.  `encodeMessage` of `Model.Message` takes what is left in the buffer as a parameter; here
it comes from the pool, and from LZ4, which may write to its destination also when it gives
up.
-/

namespace GridKV

open Go

/-- LZ4 with what `CompressBlock` leaves at the front of its destination, a function of its
    source and of the length of the destination. -/
structure LZ4Writer extends LZ4 where
  leaves : Bytes → Nat → Bytes
  leaves_le : ∀ src n, (leaves src n).length ≤ n
  block_prefix : ∀ {src block : Bytes} {n : Nat}, compressBlock src n = some block →
    block <+: leaves src n

/-- The buffer for a message: `poolBuf` is what the pool has answered, `buf` the slice that is
    written to. -/
structure WorkBuffer where
  pool : TieredBufferPool
  poolBuf : Bytes
  buf : Bytes
  fromPool : Bool

namespace TieredBufferPool

/-- The first lines of both branches of `encodeMessage`. -/
def acquire (p : TieredBufferPool) (pick total : Nat) : WorkBuffer :=
  let (p, poolBuf) := p.get pick total
  if poolBuf.length ≥ total ∧ total > 256 then
    { pool := p, poolBuf, buf := poolBuf.take total, fromPool := true }
  else
    { pool := if poolBuf.length > 0 then p.put poolBuf else p
      poolBuf
      buf := List.replicate total 0
      fromPool := false }

/-- Their last lines: `buf` is what the buffer holds by now.  The result is a copy of it when
    the buffer goes back to the pool. -/
def release (w : WorkBuffer) (buf : Bytes) (total : Nat) : TieredBufferPool × Bytes :=
  if w.fromPool then (w.pool.put (buf ++ w.poolBuf.drop buf.length), buf.take total)
  else (w.pool, buf.take total)

/-- `encodeMessage` -/
def encodeMessage (lz4 : LZ4Writer) (p : TieredBufferPool) (pick : Nat) (msg : Message) :
    TieredBufferPool × Bytes :=
  let payload := msg.data
  if ¬ msg.compressed ∧ payload.length > networkCompressThreshold then
    let boundSize := lz4.compressBlockBound payload.length
    let total := 22 + boundSize
    let w := p.acquire pick total
    let buf := copyAt w.buf 22 (lz4.leaves payload boundSize)
    match wireBlock lz4.toLZ4 msg with
    | some block =>
      let total := 22 + block.length
      release w (copyAt buf 0 (messageHeader msg msgFlagCompressed block.length)) total
    | none =>
      -- `total` stays what it was for the compressor.
      let buf := copyAt buf 22 payload
      release w (copyAt buf 0 (messageHeader msg 0 payload.length)) total
  else
    let flags := if msg.compressed then msgFlagCompressed else 0
    let total := 22 + payload.length
    let w := p.acquire pick total
    let buf := copyAt w.buf 0 (messageHeader msg flags payload.length)
    release w (copyAt buf 22 payload) total

end TieredBufferPool

end GridKV
