import GridKV.ForStd.Go

/-!
# The frequency sketch of the cache

Translation of `internal/utils/cache/tinylfu.go`.  Width and depth, which never change, are
parameters, and the slices of slices are vectors of that size.  The hash of a key, the
64-bit FNV-1a of the standard library, is a parameter.  A sketch of width 0 divides by zero,
so the width is not 0.  `TinyLFU` holds a sketch that is 512 wide and 4 deep; its hit rate, a
quotient of floats, is left out.
-/

namespace GridKV

open Go

/-- `CountMinSketch` -/
structure CountMinSketch (width depth : UInt32) where
  counts : Vector (Vector UInt64 width.toNat) depth.toNat
  seed : UInt32 := 0x12345678

/-- `hash64` -/
def hash64 (h : UInt64) : UInt64 :=
  let h := h ^^^ (h >>> 33)
  let h := h * 0xff51afd7ed558ccd
  let h := h ^^^ (h >>> 33)
  let h := h * 0xc4ceb9fe1a85ec53
  h ^^^ (h >>> 33)

namespace CountMinSketch

variable {width depth : UInt32}

/-- `NewCountMinSketch` -/
def new (width depth : UInt32) : CountMinSketch width depth where
  counts := .replicate depth.toNat (.replicate width.toNat 0)

variable [NeZero width.toNat]

/-- `idx`, the cell of a key in row `i`. -/
def index (cms : CountMinSketch width depth) (h1 : UInt64) (i : Nat) : Fin width.toNat :=
  let h2 := hash64 h1
  let h := h1 + i.toUInt64 * h2 + cms.seed.toUInt64 * i.toUInt64
  Fin.ofNat width.toNat h.toNat

variable (sum64 : GoString → UInt64)

/-- `Estimate` -/
def estimate (cms : CountMinSketch width depth) (key : GoString) : UInt64 :=
  (List.finRange depth.toNat).foldl (fun (minCount : UInt64) (i : Fin depth.toNat) =>
    let count := cms.counts[i][cms.index (sum64 key) i]
    if i.val = 0 ∨ count < minCount then count else minCount) 0

/-- The counter does not overflow. -/
def bump (count : UInt64) : UInt64 := if count < 0xFFFFFFFFFFFFFFFF then count + 1 else count

/-- `Increment` -/
def increment (cms : CountMinSketch width depth) (key : GoString) : CountMinSketch width depth :=
  { cms with
    counts := .ofFn fun i =>
      let idx := cms.index (sum64 key) i
      cms.counts[i].set idx (bump cms.counts[i][idx]) }

omit [NeZero width.toNat] in
/-- `Reset` -/
def reset (cms : CountMinSketch width depth) : CountMinSketch width depth :=
  { cms with counts := cms.counts.map fun row => row.map fun (count : UInt64) => count >>> 1 }

end CountMinSketch

end GridKV
