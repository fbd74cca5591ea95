import GridKV.Model.Checkpoint
import GridKV.Model.Replay

/-!
# Recovery from a checkpoint file

The loading phase of `replay.Start` in `internal/cluster/entropy.go`: the operations that
`LoadCheckpoint` returns are pointers, and the loop over them follows each one.
-/

namespace GridKV

open Go

namespace Replay

/-- The loop that collects the items; `op.Item` of a nil operation panics. -/
def collectItems : GoMap StoredItem → List (Option SyncOperation) → Exec (GoMap StoredItem)
  | items, [] => return items
  | items, op :: ops => do
    let op ← deref op
    collectItems (addItem items op) ops

/-- `replay.Start` up to the call of `BatchSet`: the items it is called with. -/
def loadItems (file : Option Bytes) : Exec (GoMap StoredItem) := do
  let ops ← loadCheckpoint file
  if ops.length > 0 then collectItems ∅ ops else return ∅

end Replay

end GridKV
