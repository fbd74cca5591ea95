import Mathlib.Logic.Function.Basic

/-!
# The sync buffer of a shard, in machine integers

Translation of the parts of `addToSyncBuffer`, `GetSyncBuffer` and `Clear` of
`internal/mem_storage/mem_storage.go` that work on the ring of one shard, with its counters as the
`uint64` that they are.  `Model.MemStorage` keeps the same ring with counters that do not wrap.
What is queued does not matter here, so it is any type `α`; an empty slot holds no `op`.
-/

namespace GridKV

/-- The fields of `storageShard` for the sync buffer. -/
structure SyncRing (α : Type) where
  syncBuffer : Nat → Option α
  syncHead : UInt64
  syncTail : UInt64
  syncCapacity : UInt64
  syncMask : UInt64

namespace SyncRing

variable {α : Type}

/-- The ring of a new shard. -/
def new (syncCapacity : UInt64) : SyncRing α where
  syncBuffer _ := none
  syncHead := 0
  syncTail := 0
  syncCapacity
  syncMask := syncCapacity - 1

def slot (r : SyncRing α) (i : UInt64) : Nat := (i &&& r.syncMask).toNat

/-- The values of `i` in `for i := first; i < last; i++`: none where `last` is not above
    `first`. -/
def counters (first last : UInt64) : List UInt64 :=
  (List.range' first.toNat (last.toNat - first.toNat)).map UInt64.ofNat

/-- `addToSyncBuffer` -/
def addToSyncBuffer (r : SyncRing α) (op : α) : SyncRing α :=
  let head := r.syncHead
  let tail := r.syncTail
  let r :=
    -- The difference is right even where `head` has wrapped around.
    if head - tail ≥ r.syncCapacity then
      let newTail := head - r.syncCapacity + 1
      { r with
        syncBuffer := (counters tail newTail).foldl
          (fun buffer i => Function.update buffer (r.slot i) none) r.syncBuffer
        syncTail := newTail }
    else r
  { r with
    syncBuffer := Function.update r.syncBuffer (r.slot head) (some op)
    syncHead := head + 1 }

/-- One round of the loop of `GetSyncBuffer`. -/
def collect (r : SyncRing α) (out : (Nat → Option α) × List α) (i : UInt64) :
    (Nat → Option α) × List α :=
  match out.1 (r.slot i) with
  | none => out
  | some op => (Function.update out.1 (r.slot i) none, out.2 ++ [op])

/-- The part of `GetSyncBuffer` that drains one shard. -/
def getSyncBuffer (r : SyncRing α) : SyncRing α × List α :=
  let head := r.syncHead
  let tail := r.syncTail
  if head = tail then (r, [])
  else
    let (syncBuffer, ops) := (counters tail head).foldl r.collect (r.syncBuffer, [])
    ({ r with syncBuffer, syncTail := head }, ops)

/-- The part of `Clear` that forgets what is pending; the slots are not emptied. -/
def clear (r : SyncRing α) : SyncRing α := { r with syncTail := r.syncHead }

end SyncRing

end GridKV
