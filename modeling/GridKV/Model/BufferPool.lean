import GridKV.ForStd.Go

/-!
# The tiered buffer pool

Translation of `TieredBufferPool` in `internal/utils/bufferpool/tiered_pool.go`.  A buffer is
its bytes up to its capacity, which nobody clears: what an earlier user wrote is still there
when the buffer is handed out again.  The statistics are left out.
-/

namespace GridKV

open Go

/-- `TieredBufferPool`: the buffers each `sync.Pool` keeps. -/
structure TieredBufferPool where
  tiers : Fin 5 → List Bytes := fun _ => []

namespace TieredBufferPool

/-- What the `New` function of a tier makes. -/
def newBuffer (tier : Fin 5) : Bytes :=
  match tier with
  | 0 => List.replicate 256 0
  | 1 => List.replicate 1024 0
  | 2 => List.replicate 4096 0
  | 3 => List.replicate 16384 0
  | 4 => List.replicate 65536 0

/-- `sync.Pool.Get`: some buffer of the tier, by the number `pick`, or a new one. -/
def take (p : TieredBufferPool) (tier : Fin 5) (pick : Nat) : TieredBufferPool × Bytes :=
  match (p.tiers tier)[pick]? with
  | some buf => ({ tiers := Function.update p.tiers tier ((p.tiers tier).eraseIdx pick) }, buf)
  | none => (p, newBuffer tier)

/-- `sync.Pool.Put` -/
def give (p : TieredBufferPool) (tier : Fin 5) (buf : Bytes) : TieredBufferPool where
  tiers := Function.update p.tiers tier (buf :: p.tiers tier)

/-- The tier `Get` asks. -/
def tierFor (size : Nat) : Fin 5 :=
  if size ≤ 1024 then 0
  else if size ≤ 4096 then 1
  else if size ≤ 16384 then 2
  else if size ≤ 65536 then 3
  else 4

/-- `Get`.  A pooled buffer that is too small is put back, and a new one of at most 2 MiB is
    made. -/
def get (p : TieredBufferPool) (pick size : Nat) : TieredBufferPool × Bytes :=
  if size ≤ 256 then (p, List.replicate size 0)
  else
    let (p, poolBuf) := p.take (tierFor size) pick
    if poolBuf.length ≥ size then (p, poolBuf)
    else
      let maxAlloc := 2 * 1024 * 1024
      let allocSize := if size > maxAlloc then maxAlloc else size
      (p.give (tierFor size) poolBuf, List.replicate allocSize 0)

/-- `Put`.  The tiers are those of `Get`, one below the sizes their `New` functions make. -/
def put (p : TieredBufferPool) (buf : Bytes) : TieredBufferPool :=
  let cap := buf.length
  if cap = 0 then p
  else if cap > 65536 then p
  else if cap ≤ 256 then p
  else if cap ≤ 1024 then p.give 0 buf
  else if cap ≤ 4096 then p.give 1 buf
  else if cap ≤ 16384 then p.give 2 buf
  else p.give 3 buf

end TieredBufferPool

end GridKV
