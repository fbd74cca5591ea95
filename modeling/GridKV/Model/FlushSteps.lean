import GridKV.Model.Writer

/-!
# The flush, one step at a time

The closures that `flushAsync` in `internal/cluster/writer.go` hands to the executor, cut
where they change `flushPending`, and the case of `flushLoop` for the timer.
-/

namespace GridKV

open Go

/-- The case of `flushLoop` for `flushTimer`. -/
def Writer.onTimer (w : Writer) (accepts : Nat → Bool) : Writer :=
  if w.flushPending then w else flushAsync { w with flushPending := true } accepts

/-- Where a closure that a worker runs is: in `flush` or before the deferred `Store`; in
    the sleep of the retry, or past its `CompareAndSwap`. -/
inductive FlushPhase where
  | flushing
  | clearing
  | sleeping
  | triggering
  deriving DecidableEq, Repr

def FlushTask.start : FlushTask → FlushPhase
  | .flush => .flushing
  | .retry => .sleeping

/-- A node and the flush tasks that are running. -/
structure Flusher where
  node : Node := {}
  running : List FlushPhase := []

/-- Writes queue operations, `triggerBatch` is called, the timer fires, a worker takes the next
    task, or a running task takes a step. -/
inductive FlushAction where
  | queue (ops : List SyncOperation)
  | triggerBatch (accepts : Nat → Bool)
  | onTimer (accepts : Nat → Bool)
  | take
  | flush (clock : Nat → Time) (members : List NodeInfo) (accepts : GoString → Bool)
  | clear
  | wake
  | retrigger (accepts : Nat → Bool)

namespace Flusher

/-- A task that has got to `phase` goes on. -/
def resume (s : Flusher) (phase : FlushPhase) (next : Flusher → Flusher) : Option Flusher :=
  if phase ∈ s.running then some (next { s with running := s.running.erase phase }) else none

def step (cfg : NodeConfig) (s : Flusher) : FlushAction → Option Flusher
  | .queue ops => some { s with node.writer.pendingOps := s.node.writer.pendingOps ++ ops }
  | .triggerBatch accepts => some { s with node.writer := s.node.writer.triggerBatch cfg accepts }
  | .onTimer accepts => some { s with node.writer := s.node.writer.onTimer accepts }
  | .take =>
    match s.node.writer.tasks with
    | [] => none
    | task :: tasks =>
      some { s with node.writer.tasks := tasks, running := task.start :: s.running }
  | .flush clock members accepts =>
    s.resume .flushing fun s =>
      { node := (s.node.flushInternal cfg clock members accepts).1
        running := .clearing :: s.running }
  | .clear => s.resume .clearing fun s => { s with node.writer.flushPending := false }
  | .wake =>
    s.resume .sleeping fun s =>
      -- The flag is cleared before `triggerBatch`, which may set it again.
      if s.node.writer.flushPending then
        { s with node.writer.flushPending := false, running := .triggering :: s.running }
      else s
  | .retrigger accepts =>
    s.resume .triggering fun s => { s with node.writer := s.node.writer.triggerBatch cfg accepts }

end Flusher

end GridKV
