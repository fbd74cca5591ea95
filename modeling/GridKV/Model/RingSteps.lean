import GridKV.Model.HashRing

/-!
# Concurrent updates of the ring

`Update` in `internal/cluster/hashring.go`, one atomic operation after the other: the load
of the version without the lock, the lock, the second load, the store of the new ring, the
store of the new version and the unlock.
-/

namespace GridKV

open Go

/-- The nodes `Update` publishes, in its order of cases: without nodes a ring as
    `newHashRing` makes it. -/
def RingConfig.ringData (cfg : RingConfig) (nodeIDs : List GoString) : HashRing :=
  if nodeIDs = [] then cfg.newHashRing.data else cfg.build nodeIDs

/-- The atomic operation a call of `Update` makes next; the deferred unlock comes before the
    call returns. -/
inductive RingPhase where
  | check
  | lock
  | recheck
  | storeData
  | storeVersion
  | unlock (ok : Bool)
  | returned (ok : Bool)
  deriving DecidableEq, Repr

/-- The ring, the call that holds `mu`, and the calls that have got it so far, in order. -/
structure SharedRing (ι : Type) where
  ring : VersionedRing
  mu : Option ι := none
  entered : List ι := []

/-- The calls of `Update` on one ring, with their arguments. -/
structure RingUpdates (ι : Type) where
  cfg : RingConfig
  version : ι → Int64
  nodeIDs : ι → List GoString

/-- The next atomic operation of call `i`. -/
def RingUpdates.updateStep {ι : Type} (u : RingUpdates ι) (i : ι) (s : SharedRing ι) :
    RingPhase → Option (SharedRing ι × RingPhase)
  | .check => some (s, if u.version i ≤ s.ring.version then .returned false else .lock)
  | .lock =>
    match s.mu with
    | some _ => none
    | none => some ({ s with mu := some i, entered := s.entered ++ [i] }, .recheck)
  | .recheck => some (s, if u.version i ≤ s.ring.version then .unlock false else .storeData)
  | .storeData =>
    some ({ s with ring := { s.ring with data := u.cfg.ringData (u.nodeIDs i) } }, .storeVersion)
  | .storeVersion =>
    some ({ s with ring := { s.ring with version := u.version i } }, .unlock true)
  | .unlock ok => some ({ s with mu := none }, .returned ok)
  | .returned _ => none

end GridKV
