import GridKV.Model.HashRing
import GridKV.Model.MemberSteps

/-!
# The membership callback

`newCluster` in `internal/cluster/cluster.go` makes `updateRing` the callback of the
member table: it takes a snapshot of the table and passes the IDs of the members that are
alive to `ring.Update`, with the time as the version.  The handlers run on many workers,
so a call of the table is cut into its `Load`, its `Store` and, where the callback
follows, the snapshot and the update of the ring.
-/

namespace GridKV

open Go

/-- `nodeIDs` in `updateRing`: the members of a snapshot that are alive. -/
def MemberMgr.aliveIDs (m : MemberMgr) : List GoString :=
  (m.allMembers.filter fun info => info.state = NodeState.alive).map (·.nodeID)

/-- The second half of `updateRing`, at clock reading `now`. -/
def VersionedRing.publish (cfg : RingConfig) (ring : VersionedRing) (now : Int64)
    (nodeIDs : List GoString) : VersionedRing :=
  if nodeIDs.length > 0 then (ring.update cfg now nodeIDs).1 else ring

/-- Whether the callback follows the `Store`: not when only `LastActive` is refreshed. -/
def MemberCall.callsBack (call : MemberCall) (loaded : Option NodeInfo) : Bool :=
  match call, loaded with
  | .updateNode _ address incarnation state, some old =>
    !(old.state = state ∧ old.address = address ∧ old.incarnation = incarnation)
  | _, _ => true

/-- The member table, the ring, and how often the clock has been read for it. -/
structure RingState where
  member : MemberMgr
  ring : VersionedRing
  ticks : Nat

/-- Where a handler stands. -/
inductive HandlerPhase where
  | call (p : MemberPhase)
  /-- The callback is due: about to take the snapshot. -/
  | snapshot
  /-- About to update the ring with the IDs of a snapshot. -/
  | update (nodeIDs : List GoString)

/-- The handlers of a cluster and the readings of its clock, which never go back. -/
structure Handlers (ι : Type) where
  cfg : RingConfig
  nodeID : ι → GoString
  call : ι → MemberCall
  reading : Nat → Int64
  reading_mono : ∀ j k, j ≤ k → reading j ≤ reading k

namespace Handlers

variable {ι : Type} (h : Handlers ι)

/-- What follows the step a call of handler `i` has taken from phase `p` to `q`. -/
def next (i : ι) (p q : MemberPhase) : HandlerPhase :=
  match p with
  | .store loaded _ => if (h.call i).callsBack loaded then .snapshot else .call q
  | _ => .call q

/-- The next atomic step of handler `i`. -/
def handlerStep (i : ι) (s : RingState) : HandlerPhase → Option (RingState × HandlerPhase)
  | .call p =>
    (memberStep (h.nodeID i) (h.call i) s.member p).map fun out =>
      ({ s with member := out.1 }, h.next i p out.2)
  | .snapshot => some (s, .update s.member.aliveIDs)
  | .update nodeIDs =>
    some ({ s with
      ring := s.ring.publish h.cfg (h.reading s.ticks) nodeIDs
      ticks := s.ticks + 1 }, .call .done)

/-- The ring `newCluster` starts with: it calls `updateRing` itself. -/
def newCluster (m : MemberMgr) : RingState where
  member := m
  ring := h.cfg.newHashRing.publish h.cfg (h.reading 0) m.aliveIDs
  ticks := 1

end Handlers

end GridKV
