import GridKV.Model.Member

/-!
# The updates of the member table, one atomic step at a time

`updateNode`, `markSuspect` and `markDead` of `internal/cluster/member.go`, cut at the
operations on the `sync.Map`: each makes a `Load` of the node's entry, decides what to
write, and makes a `Store`.  The message handlers run on many workers, so the steps of
several calls can interleave.
-/

namespace GridKV

open Go

/-- The calls that change the entry of a node. -/
inductive MemberCall where
  | updateNode (now : Time) (address : GoString) (incarnation : Int64) (state : NodeState)
  | markSuspect
  | markDead

namespace MemberCall

/-- What `markSuspect` and `markDead` write for the entry they have loaded. -/
def marked (state : NodeState) (loaded : Option NodeInfo) : Option NodeInfo :=
  match loaded with
  | none => none
  | some info => if info.state = state then none else some { info with state }

/-- What a call writes for the entry it has loaded; `none` when it returns without a
    `Store`. -/
def writes (nodeID : GoString) (call : MemberCall) (loaded : Option NodeInfo) : Option NodeInfo :=
  match call with
  | .updateNode now address incarnation state =>
    let info : NodeInfo := { nodeID, address, state, incarnation, lastActive := now }
    if address = [] then none
    else
      match loaded with
      | none => some info
      | some old =>
        if incarnation < old.incarnation then none
        else if old.state = state ∧ old.address = address ∧ old.incarnation = incarnation then
          if now - old.lastActive > second then some info else none
        else some info
  | .markSuspect => marked NodeState.suspect loaded
  | .markDead => marked NodeState.dead loaded

end MemberCall

/-- Where a call stands. -/
inductive MemberPhase where
  | load
  /-- The entry has been loaded and compared: about to store `info`. -/
  | store (loaded : Option NodeInfo) (info : NodeInfo)
  | done

/-- The next atomic step of a call on the entry of `nodeID`. -/
def memberStep (nodeID : GoString) (call : MemberCall) (m : MemberMgr) :
    MemberPhase → Option (MemberMgr × MemberPhase)
  | .load =>
    match call.writes nodeID (m.members.lookup nodeID) with
    | none => some (m, .done)
    | some info => some (m, .store (m.members.lookup nodeID) info)
  | .store _ info => some ({ m with members := m.members.insert nodeID info }, .done)
  | .done => none

end GridKV
