import GridKV.Model.SyncCodec

/-!
# Checkpoint files

Translation of `SaveCheckpoint` and `LoadCheckpoint` in `internal/cluster/entropy.go`.
`SaveCheckpoint` is one system call after the other, each of which may fail, so that the
process can be stopped between any two of them.  Of a file the model keeps the contents and
whether they have been synced, which decides what is left of it after a crash.
-/

namespace GridKV

open Go Endian

structure File where
  contents : Bytes
  synced : Bool
  deriving DecidableEq, Repr

/-- The files at `checkpointPath` and at `tmpPath`. -/
structure Disk where
  checkpoint : Option File := none
  tmp : Option File := none
  deriving DecidableEq, Repr

namespace Disk

/-- `f.Write` and `binary.Write` on the temporary file. -/
def writeTmp (disk : Disk) (data : Bytes) : Disk :=
  { disk with tmp := disk.tmp.map fun f => { contents := f.contents ++ data, synced := false } }

/-- `f.Sync` -/
def syncTmp (disk : Disk) : Disk :=
  { disk with tmp := disk.tmp.map fun f => { f with synced := true } }

/-- `os.Remove(tmpPath)`, whose error is ignored. -/
def removeTmp (disk : Disk) (removed : Bool) : Disk :=
  if removed then { disk with tmp := none } else disk

/-- `os.Rename(tmpPath, r.checkpointPath)` -/
def rename (disk : Disk) : Disk := { checkpoint := disk.tmp, tmp := none }

/-- What may be left of a file after a crash: a synced one is as it was, and of one that was
    not synced nothing is certain. -/
def FileSurvives : Option File → Option File → Prop
  | none, after => after = none
  | some file, after => file.synced → after.map File.contents = some file.contents

/-- What the disk may be after a crash. -/
def Survives (before after : Disk) : Prop :=
  FileSurvives before.checkpoint after.checkpoint ∧ FileSurvives before.tmp after.tmp

end Disk

/-- The outcome of a system call: whether it succeeds, how many bytes a write that fails has
    written, and whether the temporary file can be removed after that. -/
structure CallResult where
  ok : Bool := true
  written : Nat := 0
  removed : Bool := true

/-- The system call that `SaveCheckpoint` makes next, with the serialised operations where
    it still needs them; or it has returned, `ok` for nil. -/
inductive SavePhase where
  | serialize
  | mkdirAll (data : Bytes)
  | create (data : Bytes)
  | writeLength (data : Bytes)
  | writeData (data : Bytes)
  | sync
  | close
  | rename
  | returned (ok : Bool)

/-- A call of `SaveCheckpoint` and the disk it works on. -/
structure Saving where
  disk : Disk
  phase : SavePhase := .serialize

namespace Saving

/-- `SaveCheckpoint` up to the next system call; `none` if it has returned or panics. -/
def saveCheckpoint (ops : List (Option SyncOperation)) (s : Saving) (res : CallResult) :
    Option Saving :=
  match s.phase with
  | .serialize =>
    if ops.length = 0 then some { s with phase := .returned true }
    else
      match SyncOpsCodec.serialize ops with
      | .ok data => some { s with phase := .mkdirAll data }
      | .error _ => none
  | .mkdirAll data =>
    if res.ok then some { s with phase := .create data }
    else some { s with phase := .returned false }
  | .create data =>
    if res.ok then
      some { disk := { s.disk with tmp := some ⟨[], false⟩ }, phase := .writeLength data }
    else some { s with phase := .returned false }
  | .writeLength data =>
    let length := leBytes 4 data.length
    if res.ok then some { disk := s.disk.writeTmp length, phase := .writeData data }
    else some
      { disk := (s.disk.writeTmp (length.take res.written)).removeTmp res.removed
        phase := .returned false }
  | .writeData data =>
    if res.ok then some { disk := s.disk.writeTmp data, phase := .sync }
    else some
      { disk := (s.disk.writeTmp (data.take res.written)).removeTmp res.removed
        phase := .returned false }
  | .sync =>
    if res.ok then some { disk := s.disk.syncTmp, phase := .close }
    else some { disk := s.disk.removeTmp res.removed, phase := .returned false }
  | .close =>
    if res.ok then some { s with phase := .rename }
    else some { disk := s.disk.removeTmp res.removed, phase := .returned false }
  | .rename =>
    if res.ok then some { disk := s.disk.rename, phase := .returned true }
    else some { s with phase := .returned false }
  | .returned _ => none

end Saving

/-- `LoadCheckpoint`, given what `os.ReadFile` returns; `none` for a file that does not
    exist. -/
def loadCheckpoint (file : Option Bytes) : Exec (List (Option SyncOperation)) :=
  match file with
  | none => return []
  | some data =>
    if data.length < 4 then return []
    else do
      let length ← leUint 4 (← slice data 0 4)
      if data.length < 4 + length then return []
      else
        -- `4+length` has the type of `length`, which is `uint32`.
        SyncOpsCodec.deserialize (← slice data 4 ((4 + length) % 2 ^ 32))

end GridKV
