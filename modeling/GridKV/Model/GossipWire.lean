import GridKV.Model.Gossip
import GridKV.Model.Hlc
import GridKV.Model.SyncCodec

/-!
# Gossip messages on the wire

Translation of `HandleMessage` in `internal/cluster/gossip.go` and of the messages `Push`
and `Pull` build.  A push is `PUSH:` and the serialised operations, a pull request `PULL:`,
the node ID of the sender, a colon and the serialised operations.
-/

namespace GridKV

open Go

namespace Gossip

/-- The message `Push` sends. -/
def pushMessage (data : Bytes) : Bytes := ascii "PUSH:" ++ data

/-- The message `Pull` sends. -/
def pullRequest (nodeID : GoString) (data : Bytes) : Bytes :=
  ascii "PULL:" ++ nodeID ++ [colon] ++ data

/-- A message whose header has been read, with the bytes that go to `Deserialize`; a pull
    request without a second colon has none. -/
inductive Request where
  | push (payload : Bytes)
  | pull (nodeID : GoString) (payload : Option Bytes)
  deriving DecidableEq, Repr

/-- The part of `HandleMessage` that takes the message apart. -/
def parseRequest (data : Bytes) : Exec (Option Request) :=
  if data.length < 5 then return none
  else if data.take 5 = ascii "PUSH:" then do
    return some (.push (← sliceFrom data 5))
  else if data.take 5 = ascii "PULL:" then do
    let payload ← sliceFrom data 5
    -- The first colon ends the node ID.
    let idx := payload.findIdx (· == colon)
    let ops ← if idx < payload.length then some <$> sliceFrom payload (idx + 1) else pure none
    return some (.pull (← slice payload 0 idx) ops)
  else return none

/-- What a message leads to: the store, the error `HandleMessage` returns, and the node that
    the task it submits will answer. -/
structure Handled where
  store : MemStorage
  err : Option StoreError := none
  replyTo : Option GoString := none

/-- `HandleMessage`; `answers` tells whether there are an executor and a `sendFunc`. -/
def handleMessage (cfg : NodeConfig) (clock : Nat → Time) (answers : Bool) (s : MemStorage)
    (data : Bytes) : Exec Handled := do
  match ← parseRequest data with
  | none => return { store := s }
  | some (.push payload) =>
    let ops ← SyncOpsCodec.deserialize payload
    let (s, err) := applyOps cfg clock 0 s ops
    return { store := s, err }
  | some (.pull nodeID payload) =>
    let s ← match payload with
      | none => pure s
      | some payload =>
        let remoteOps ← SyncOpsCodec.deserialize payload
        -- The error of `applyOps` is dropped.
        pure (if remoteOps.length > 0 then (applyOps cfg clock 0 s remoteOps).1 else s)
    return { store := s, replyTo := if answers then some nodeID else none }

end Gossip

end GridKV
