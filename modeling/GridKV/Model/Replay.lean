import GridKV.Model.Writer

/-!
# Checkpoint replay

Translation of `replay.Start` in `internal/cluster/entropy.go`, for the operations that
were loaded from the checkpoint file.  The retries of hinted handoffs that `Start` submits
send operations and change nothing at the node, and are left out with the file.
-/

namespace GridKV

open Go

namespace Replay

/-- One round of the loop that collects the items; a later operation on a key takes the
    place of an earlier one. -/
def addItem (items : GoMap StoredItem) (op : SyncOperation) : GoMap StoredItem :=
  match op.item with
  | none => items
  | some item => items.insert op.key item

/-- The map `Start` hands to `BatchSet`. -/
def checkpointItems (ops : List SyncOperation) : GoMap StoredItem := ops.foldl addItem ∅

/-- The entries of a map, which `range` visits in any order. -/
def rangeOf (items : GoMap StoredItem) : List (GoString × StoredItem) :=
  items.entries.map fun entry => (entry.1, entry.2)

/-- `replay.Start`; `visited` are the entries of the map in the order `BatchSet` visits
    them in. -/
def start (cfg : NodeConfig) (node : Node) (ops : List SyncOperation)
    (visited : List (GoString × StoredItem)) (reading : Int64) (accepts : Nat → Bool) : Node :=
  if ops.length > 0 then
    if (checkpointItems ops).entries.length > 0 then node.batchSet cfg visited reading accepts
    else node
  else node

end Replay

end GridKV
