import GridKV.Model.MemStorage

/-!
# Conflict resolution between two items

Translation of `IsExpired` and `ResolveConflict` in
`internal/mem_storage/stored_item.go`.  The method reads the clock three times; here one
reading stands for all of them.
-/

namespace GridKV

open Go

namespace StoredItem

/-- `StoredItem.IsExpired` at clock reading `now`. -/
def isExpired (now : Time) (item : StoredItem) : Bool :=
  if item.expireAt = zeroTime then false else decide (now > item.expireAt)

/-- `int64(time.Hour)` -/
def hour : Int64 := 3600000000000

/-- `int64(closeTimeWindow)`: 100 milliseconds. -/
def closeTimeWindow : Int64 := 100000000

/-- `int64(mediumTimeWindow)`: 500 milliseconds. -/
def mediumTimeWindow : Int64 := 500000000

def minVersionGap : Int64 := 1000

/-- `timeDiff`, the distance of the two timestamps. -/
def timeDiff (itemTs otherTs : Int64) : Int64 :=
  if otherTs > itemTs then otherTs - itemTs else itemTs - otherTs

/-- The end of `ResolveConflict`: strict comparison, then expiry for equal versions. -/
def resolveStrictly (now : Time) (item other : StoredItem) : Bool :=
  if other.version > item.version then true
  else if other.version < item.version then false
  else
    let itemExpired := item.isExpired now
    let otherExpired := other.isExpired now
    if otherExpired && !itemExpired then false
    else if !otherExpired && itemExpired then true
    else false

/-- `StoredItem.ResolveConflict`: whether `other` should replace `item`. -/
def resolveConflict (now : Time) (item : StoredItem) (other : Option StoredItem) : Bool :=
  match other with
  | none => false
  | some other =>
    if item.version < 0 ∧ other.version ≥ 0 then true
    else if item.version < 0 ∨ other.version < 0 then decide (other.version > item.version)
    else
      -- Versions hold the timestamp above 16 counter bits.
      let itemTs := item.version >>> 16
      let otherTs := other.version >>> 16
      let currentTime := unixNano now
      if itemTs > currentTime + hour ∨ otherTs > currentTime + hour then false
      else
        if timeDiff itemTs otherTs ≤ closeTimeWindow ∧ other.version ≠ item.version then
          decide (other.version > item.version)
        else if timeDiff itemTs otherTs ≤ mediumTimeWindow ∧ other.version ≠ item.version then
          decide (other.version - item.version > minVersionGap)
        else resolveStrictly now item other

end StoredItem

end GridKV
