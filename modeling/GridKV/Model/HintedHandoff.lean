import GridKV.Model.MemberCodec

/-!
# Hinted handoff

Translation of `HintedHandoff` and `retryHintedHandoff` in `internal/cluster/entropy.go`.
A retry holds the lock twice, once to copy the queue and once to shorten it; what other
tasks do in between is up to them, so a retry is modelled as a sequence of atomic steps.
Sleeping between two attempts takes time and does nothing else.
-/

namespace GridKV

open Go

/-- The field `hintedHandoff` of `replay` and its lock.  `α` stands for the pointers to
    operations, which are only moved around. -/
structure HandoffQueues (α : Type) where
  queues : GoMap (List α) := ∅
  /-- A task that panics under `hhMu` leaves it locked. -/
  locked : Bool := false

/-- What a retry finds out about its node in one attempt: the state the member manager
    reports and then the members, if there is a member manager, and what `Push` returns, if
    there is a gossip component. -/
structure PeerView where
  member : Option (NodeState × List NodeInfo)
  pushed : Option Bool

/-- `targetAddr` -/
def PeerView.targetAddr (view : PeerView) (nodeID : GoString) : GoString :=
  match view.member with
  | none => []
  | some (_, members) =>
    match members.find? fun m => m.nodeID = nodeID ∧ m.state = NodeState.alive with
    | none => []
    | some m => m.address

/-- Where a call of `retryHintedHandoff` is: before the copy of round `i`, with the copy in
    hand, after a `Push` that returned nil, or at its end. -/
inductive RetryPhase (α : Type) where
  | attempt (i : Nat)
  | send (i : Nat) (opsCopy : List α)
  | remove (opsCopy : List α)
  | done
  | panicked

namespace HandoffQueues

variable {α : Type}

def queue (h : HandoffQueues α) (nodeID : GoString) : List α := (h.queues.lookup nodeID).getD []

/-- What `HintedHandoff` does under the lock. -/
def hintedHandoff (h : HandoffQueues α) (nodeID : GoString) (ops : List α) : HandoffQueues α :=
  if ops.length = 0 then h
  else { h with queues := h.queues.insert nodeID (h.queue nodeID ++ ops) }

/-- The removal after a `Push` of `sent` operations. -/
def removeSent (h : HandoffQueues α) (nodeID : GoString) (sent : Nat) : Exec (HandoffQueues α) :=
  if (h.queue nodeID).length = sent then .ok { h with queues := h.queues.erase nodeID }
  else if sent ≤ (h.queue nodeID).length then
    let remaining := (h.queue nodeID).drop sent
    if remaining.length > 0 then .ok { h with queues := h.queues.insert nodeID remaining }
    else .ok { h with queues := h.queues.erase nodeID }
  else .error .indexOutOfRange

/-- `maxRetries` -/
def maxRetries : Nat := 10

/-- One atomic step of `retryHintedHandoff`, and what it passes to `Push`; `none` where the
    task waits for the lock or has ended. -/
def retryHintedHandoff (nodeID : GoString) (view : PeerView) (h : HandoffQueues α) :
    RetryPhase α → Option (HandoffQueues α × RetryPhase α × List α)
  | .attempt i =>
    if h.locked then none
    else if i < maxRetries then
      if (h.queue nodeID).length = 0 then some (h, .done, [])
      else some (h, .send i (h.queue nodeID), [])
    else some ({ h with queues := h.queues.erase nodeID }, .done, [])
  | .send i opsCopy =>
    if view.member.any fun member => member.1 ≠ NodeState.alive then
      some (h, .attempt (i + 1), [])
    else if view.targetAddr nodeID = [] then some (h, .attempt (i + 1), [])
    else
      match view.pushed with
      | none => some (h, .attempt (i + 1), [])
      | some true => some (h, .remove opsCopy, opsCopy)
      | some false => some (h, .attempt (i + 1), opsCopy)
  | .remove opsCopy =>
    if h.locked then none
    else
      match h.removeSent nodeID opsCopy.length with
      | .ok h => some (h, .done, [])
      | .error _ => some ({ h with locked := true }, .panicked, [])
  | .done => none
  | .panicked => none

end HandoffQueues

end GridKV
