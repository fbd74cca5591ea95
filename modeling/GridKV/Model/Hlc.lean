import GridKV.ForStd.Go

/-!
# The hybrid logical clock and its version encoding

Translation of `internal/utils/hlc/hlc.go` and of `hlcToInt64` in
`internal/cluster/writer.go`.  A timestamp is the string
`nodeID:unixnano:counter`; a version is the 64-bit integer `hlcToInt64` packs out
of it.  Wall-clock readings (`time.Now().UnixNano()`) are arguments.
-/

namespace GridKV

open Go

/-- The byte `':'`. -/
def colon : UInt8 := 58

/-- The `for i > 0` loop of `AppendInt` and `AppendUint`, which fills a 20-byte
    array from the right.  `acc` is `tmp[idx:]`; writing at index `-1` panics. -/
def fillDigits : Nat → Nat → Bytes → Exec Bytes
  | 0, i, acc => if i = 0 then .ok acc else .error .indexOutOfRange
  | idx + 1, i, acc =>
    if i = 0 then .ok acc else fillDigits idx (i / 10) (UInt8.ofNat (48 + i % 10) :: acc)

/-- `hlc.AppendInt` -/
def appendInt (buf : Bytes) (i : Int64) : Exec Bytes := do
  if i = 0 then
    return buf ++ [48]
  if i < 0 then
    if i = Int64.minValue then
      return buf ++ ascii "-9223372036854775808"
    return buf ++ [45] ++ (← fillDigits 20 (-i).toInt.toNat [])
  return buf ++ (← fillDigits 20 i.toInt.toNat [])

/-- `hlc.AppendUint` -/
def appendUint (buf : Bytes) (u : UInt64) : Exec Bytes := do
  if u = 0 then
    return buf ++ [48]
  return buf ++ (← fillDigits 20 u.toNat [])

/-- `hlc.HLC`.  The mutex and the reused formatting buffer carry no state between
    calls. -/
structure HLC where
  lastTs : Int64 := 0
  counter : UInt64 := 0
  nodeID : GoString
  cachedTS : GoString := []
  cacheValid : Bool := false
  lastCacheTS : Int64 := 0
  lastCacheCtr : UInt64 := 0
  deriving DecidableEq, Repr

/-- `hlc.NewHLC` -/
def newHLC (nodeID : GoString) : HLC := { nodeID }

/-- The string `Now` builds for the clock state `(lastTs, counter)`. -/
def formatHLC (nodeID : GoString) (lastTs : Int64) (counter : UInt64) : Exec GoString := do
  let buf := nodeID ++ [colon]
  let buf ← appendInt buf lastTs
  let buf := buf ++ [colon]
  appendInt buf counter.toInt64

/-- The clock state `Now` moves to before it formats: the wall clock when it is
    ahead, one more tick of the counter otherwise. -/
def HLC.tick (h : HLC) (now : Int64) : HLC :=
  if now > h.lastTs then
    { h with lastTs := now, counter := 0, cacheValid := false }
  else
    { h with counter := h.counter + 1, cacheValid := false }

/-- `HLC.Now` at wall-clock reading `now`. -/
def HLC.now (h : HLC) (now : Int64) : Exec (HLC × GoString) := do
  let h := h.tick now
  if h.cacheValid ∧ h.lastTs = h.lastCacheTS ∧ h.counter = h.lastCacheCtr then
    return (h, h.cachedTS)
  let s ← formatHLC h.nodeID h.lastTs h.counter
  return ({ h with
    cachedTS := s, cacheValid := true, lastCacheTS := h.lastTs, lastCacheCtr := h.counter }, s)

/-- The index of the first colon at or after `start`. -/
def findColon (s : GoString) (start : Nat) : Option Nat :=
  ((s.drop start).findIdx? (· == colon)).map (start + ·)

/-- The timestamp loop: `int64` accumulation, a byte that is no digit aborts. -/
def parseTimestamp : GoString → Int64 → Option Int64
  | [], ts => some ts
  | c :: cs, ts =>
    if c < 48 ∨ c > 57 then none
    else parseTimestamp cs (ts * 10 + Int64.ofNat (c - 48).toNat)

/-- The counter loop: `uint64` accumulation, a byte that is no digit ends it. -/
def parseCounter : GoString → UInt64 → UInt64
  | [], ctr => ctr
  | c :: cs, ctr =>
    if c < 48 ∨ c > 57 then ctr
    else parseCounter cs (ctr * 10 + UInt64.ofNat (c - 48).toNat)

/-- The parse of `nodeID:timestamp:counter` that `HLC.Update` and `hlcToInt64`
    share; `none` where they give up on the string. -/
def parseHLC (s : GoString) : Option (Int64 × UInt64) :=
  if s = [] then none else do
    let idx1 ← findColon s 0
    if idx1 + 1 ≥ s.length then none else
      let idx2 ← findColon s (idx1 + 1)
      if idx2 + 1 ≥ s.length then none else
        let ts ← parseTimestamp ((s.take idx2).drop (idx1 + 1)) 0
        return (ts, parseCounter (s.drop (idx2 + 1)) 0)

/-- `HLC.Update` -/
def HLC.update (h : HLC) (remote : GoString) : HLC :=
  match parseHLC remote with
  | none => h
  | some (ts, ctr) =>
    if ts > h.lastTs then
      { h with lastTs := ts, counter := ctr, cacheValid := false }
    else if ts = h.lastTs ∧ ctr > h.counter then
      { h with counter := ctr, cacheValid := false }
    else h

/-- The encoding at the end of `hlcToInt64`: 48 timestamp bits over 16 counter
    bits. -/
def packVersion (ts : Int64) (ctr : UInt64) : Int64 :=
  let tsTruncated := ts &&& 0xFFFFFFFFFFFF
  let ctr := if ctr > 65535 then 65535 else ctr
  (tsTruncated <<< 16) ||| (ctr &&& 0xFFFF).toInt64

/-- `hlcToInt64`, with `now` the reading it falls back to on a string it cannot
    parse. -/
def hlcToInt64 (now : Int64) (hlcStr : GoString) : Int64 :=
  match parseHLC hlcStr with
  | none => now
  | some (ts, ctr) => packVersion ts ctr

end GridKV
