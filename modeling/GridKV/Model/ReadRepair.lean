import GridKV.Model.Writer

/-!
# Read repair

Translation of `readRepair` and its rate limiter in `internal/cluster/reader.go`.  `Repair`
chooses the item and hands a task to the executor; the task is a `writer.Set` of the item,
`Node.set`, at some later time.
-/

namespace GridKV

open Go

/-- `rateLimiter` -/
structure RateLimiter where
  rate : Int64
  tokens : Int64
  last : Int64
  deriving DecidableEq, Repr

namespace RateLimiter

/-- `newRateLimiter` -/
def new (ratePerSec now : Int64) : RateLimiter where
  rate := ratePerSec
  tokens := ratePerSec
  last := now

/-- `Allow` at a reading of the clock. -/
def allow (rl : RateLimiter) (now : Int64) : RateLimiter × Bool :=
  let elapsed := now - rl.last
  let tokens := rl.tokens + elapsed * rl.rate / 1000000000
  let tokens := if tokens > rl.rate then rl.rate else tokens
  if tokens ≥ 1 then ({ rl with tokens := tokens - 1, last := now }, true)
  else ({ rl with tokens, last := now }, false)

end RateLimiter

namespace ReadRepair

/-- The limiter of `newReadRepair`. -/
def newLimiter (rateLimitPerSec now : Int64) : RateLimiter :=
  .new (if rateLimitPerSec ≤ 0 then 100 else rateLimitPerSec) now

/-- The loop of `Repair` that finds the highest version. -/
def maxVersion (first : StoredItem) (rest : List StoredItem) : StoredItem :=
  rest.foldl (fun best item => if item.version > best.version then item else best) first

/-- `Repair`: the item of the task the executor accepts, if there is one.  No error is ever
    reported. -/
def repair (limiter : RateLimiter) (now : Int64) (hasWriter accepts : Bool) :
    List StoredItem → RateLimiter × Option StoredItem
  | [] => (limiter, none)
  | first :: rest =>
    match limiter.allow now with
    | (limiter, false) => (limiter, none)
    | (limiter, true) =>
      if hasWriter ∧ accepts then (limiter, some (maxVersion first rest)) else (limiter, none)

end ReadRepair

end GridKV
