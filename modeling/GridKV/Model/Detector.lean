import GridKV.Model.Member

/-!
# The failure detector

The calls that a member manager of `internal/cluster/member.go` gets, one after the other:
messages from the network, ticks of the ping loop, and the timers that `markSuspect` sets.
-/

namespace GridKV

open Go

/-- `failureTimeout` and `suspectTimeout` -/
structure DetectorConfig where
  failureTimeout : Int
  suspectTimeout : Int

/-- A member manager and the nodes for which a timer of `markSuspect` is running. -/
structure Detector where
  member : MemberMgr
  timers : List GoString := []

/-- A call, with the readings of the clock it meets. -/
inductive DetectorAction where
  | message (clock : Nat → Time) (msg : MemberMsg)
  | ping (inputs : GoString → MemberMgr.ProbeInput)
  | timer (nodeID : GoString) (now : Time)

namespace Detector

/-- The nodes for which `doPing` calls `markSuspect`; it finds each of them in another state,
    and sets a timer. -/
def newSuspects (m : MemberMgr) (failureTimeout : Int)
    (inputs : GoString → MemberMgr.ProbeInput) : List GoString :=
  (m.members.entries.filter fun entry =>
    entry.1 ≠ m.nodeID ∧ entry.2.state ≠ NodeState.dead ∧
      (inputs entry.1).now - entry.2.lastActive > failureTimeout ∧
      entry.2.state ≠ NodeState.suspect).map (·.1)

/-- One call.  A message whose handler panics has no next state. -/
def step (cfg : DetectorConfig) (d : Detector) : DetectorAction → Option Detector
  | .message clock msg =>
    match d.member.handleMessage clock msg with
    | .ok (member, _) => some { d with member }
    | .error _ => none
  | .ping inputs =>
    some
      { member := (d.member.doPing cfg.failureTimeout inputs).1
        timers := d.timers ++ newSuspects d.member cfg.failureTimeout inputs }
  | .timer nodeID now =>
    if nodeID ∈ d.timers then
      some
        { member := (d.member.suspectTimeout cfg.suspectTimeout now nodeID).1
          timers := d.timers.erase nodeID }
    else none

variable {cfg : DetectorConfig} {d d' : Detector}

theorem step_message {clock : Nat → Time} {msg : MemberMsg}
    (h : d.step cfg (.message clock msg) = some d') :
    (∃ effects, d.member.handleMessage clock msg = .ok (d'.member, effects)) ∧
      d'.timers = d.timers := by
  simp only [step] at h
  split at h <;> cases h
  rename_i member effects hout
  exact ⟨⟨effects, hout⟩, rfl⟩

theorem step_timer {nodeID : GoString} {now : Time}
    (h : d.step cfg (.timer nodeID now) = some d') :
    nodeID ∈ d.timers ∧
      d' = { member := (d.member.suspectTimeout cfg.suspectTimeout now nodeID).1
             timers := d.timers.erase nodeID } := by
  simp only [step] at h
  split at h
  · exact ⟨‹_›, (Option.some.inj h).symm⟩
  · cases h

/-- A member manager that has just been made. -/
def start (nodeID address : GoString) (incarnation : Int64) (now : Time) (hasSendFunc : Bool) :
    Detector where
  member := { MemberMgr.new nodeID address incarnation now with hasSendFunc }

end Detector

end GridKV
