import GridKV.ForStd.Run
import GridKV.Model.Detector
import GridKV.Model.RingUpdate
import GridKV.Spec.MemberHandlers

/-!
# A node does not lose itself

A message may name the node that receives it, as sender, as target or in a list of members.
Handlers that take one node from the message record it as alive, `handleLeave` has no address
for it, and `handleClusterSync` skips the node itself; `doPing` skips it as well, so no timer
is ever set for it.  The entry a member manager starts with is therefore there, and alive,
until `Leave` (`Present`), also in between the updates of a call that makes several, which is
where the ring is built from the members that are alive.
-/

namespace GridKV

open Go Run List

namespace MemberMgr

variable {m : MemberMgr} {clock : Nat → Time} {msg : MemberMsg}

/-! ### The table -/

/-- The entry of the node is there, and it is alive. -/
def SelfAlive (m : MemberMgr) : Prop :=
  ∃ info, m.members.lookup m.nodeID = some info ∧ info.state = NodeState.alive

/-- Then the node is among the members the ring is built from. -/
theorem SelfAlive.aliveIDs_ne_nil (h : m.SelfAlive) : m.aliveIDs ≠ [] := by
  obtain ⟨info, hlookup, halive⟩ := h
  have hmem : info ∈ m.allMembers := mem_map.mpr ⟨_, AList.mem_lookup_iff.mp hlookup, rfl⟩
  have halive : info ∈ m.allMembers.filter fun info => info.state = NodeState.alive :=
    mem_filter.mpr ⟨hmem, decide_eq_true halive⟩
  exact ne_nil_of_mem (mem_map_of_mem halive)

/-- A change that leaves the entry of the node alone. -/
theorem SelfAlive.of_lookup_eq {m' : MemberMgr} (h : m.SelfAlive) (hid : m'.nodeID = m.nodeID)
    (hlookup : m'.members.lookup m.nodeID = m.members.lookup m.nodeID) : m'.SelfAlive := by
  obtain ⟨info, hinfo, halive⟩ := h
  refine ⟨info, ?_, halive⟩
  rw [hid, hlookup]
  exact hinfo

/-- News of another node, or that the node itself is alive, or without an address. -/
theorem SelfAlive.updateNode (h : m.SelfAlive) (now : Time) {nodeID address : GoString}
    (incarnation : Int64) {state : NodeState}
    (hnews : nodeID ≠ m.nodeID ∨ state = NodeState.alive ∨ address = []) :
    (m.updateNode now nodeID address incarnation state).1.SelfAlive := by
  obtain ⟨-, hupdate⟩ | ⟨haddress, -, effects, -, hupdate⟩ :=
    updateNode_cases m now nodeID address incarnation state
  · rw [hupdate]
    exact h
  · rw [hupdate]
    by_cases hown : m.nodeID = nodeID
    · have halive : state = NodeState.alive :=
        (hnews.resolve_left (not_not.mpr hown.symm)).resolve_right haddress
      exact ⟨_, (lookup_storeNode ..).trans (if_pos hown), halive⟩
    · exact h.of_lookup_eq rfl ((lookup_storeNode ..).trans (if_neg hown))

/-- No message can make a node record itself as anything but alive. -/
theorem keptByCalls_selfAlive (own : GoString) (clock : Nat → Time) (msg : MemberMsg) :
    KeptByCalls SelfAlive own clock msg where
  probes _ _ h := h
  calls m now nodeID address incarnation state hid hcall h := by
    apply h.updateNode
    cases hcall with
    | ping | ack | connect | indirectAck => exact .inr (.inl rfl)
    | leave => exact .inr (.inr rfl)
    | clusterSync sync i entry hmem hother => exact .inl (hid ▸ hother)

/-! ### Probes -/

/-- What changes the entry of another node leaves the node itself alone. -/
theorem SelfAlive.insert (h : m.SelfAlive) {nodeID : GoString} (hother : nodeID ≠ m.nodeID)
    (info : NodeInfo) : SelfAlive { m with members := m.members.insert nodeID info } :=
  h.of_lookup_eq rfl (AList.lookup_insert_ne (Ne.symm hother))

theorem SelfAlive.mark (h : m.SelfAlive) {nodeID : GoString} (hother : nodeID ≠ m.nodeID)
    (state : NodeState) :
    (m.mark nodeID state).1.SelfAlive ∧ (m.mark nodeID state).1.nodeID = m.nodeID := by
  unfold MemberMgr.mark
  split
  · exact ⟨h, rfl⟩
  · split
    · exact ⟨h, rfl⟩
    · exact ⟨h.insert hother _, rfl⟩

theorem SelfAlive.updateLastActive (h : m.SelfAlive) {nodeID : GoString}
    (hother : nodeID ≠ m.nodeID) (now : Time) :
    (m.updateLastActive now nodeID).SelfAlive ∧
      (m.updateLastActive now nodeID).nodeID = m.nodeID := by
  unfold MemberMgr.updateLastActive
  split
  · exact ⟨h, rfl⟩
  · split
    · exact ⟨h, rfl⟩
    · split
      · exact ⟨h, rfl⟩
      · split
        · exact ⟨h, rfl⟩
        · exact ⟨h.insert hother _, rfl⟩

/-- A visit of `doPing` leaves the entry of the node alone. -/
theorem SelfAlive.pingMember (h : m.SelfAlive) (failureTimeout : Int) (input : ProbeInput)
    (nodeID : GoString) (info : NodeInfo) :
    (m.pingMember failureTimeout input nodeID info).1.SelfAlive ∧
      (m.pingMember failureTimeout input nodeID info).1.nodeID = m.nodeID := by
  unfold MemberMgr.pingMember
  split
  · exact ⟨h, rfl⟩
  · rename_i hother
    split
    · exact ⟨h, rfl⟩
    · split
      · split
        · exact h.mark hother NodeState.dead
        · exact h.mark hother NodeState.suspect
      · split
        · exact ⟨h, rfl⟩
        · split
          · dsimp only
            split
            · exact h.updateLastActive hother input.activeNow
            · exact ⟨h, rfl⟩
          · exact ⟨h, rfl⟩

/-- So does any part of its loop. -/
theorem SelfAlive.pingMembers (h : m.SelfAlive) (failureTimeout : Int)
    (inputs : GoString → ProbeInput) (entries : List (Sigma fun _ : GoString => NodeInfo)) :
    (m.pingMembers failureTimeout inputs entries).1.SelfAlive ∧
      (m.pingMembers failureTimeout inputs entries).1.nodeID = m.nodeID := by
  induction entries generalizing m with
  | nil => exact ⟨h, rfl⟩
  | cons entry entries ih =>
    obtain ⟨hfirst, hid⟩ := h.pingMember failureTimeout (inputs entry.1) entry.1 entry.2
    obtain ⟨hrest, hid'⟩ := ih hfirst
    exact ⟨hrest, hid'.trans hid⟩

end MemberMgr

namespace Detector

variable {cfg : DetectorConfig} {d d' : Detector} {a : DetectorAction}

/-! ### Whole runs -/

/-- The node is in its own table, alive, and no timer is running for it. -/
structure Present (nodeID : GoString) (d : Detector) : Prop where
  nodeID_eq : d.member.nodeID = nodeID
  alive : d.member.SelfAlive
  noTimer : nodeID ∉ d.timers

theorem notMem_newSuspects (m : MemberMgr) (failureTimeout : Int)
    (inputs : GoString → MemberMgr.ProbeInput) :
    m.nodeID ∉ newSuspects m failureTimeout inputs := by
  intro hmem
  obtain ⟨entry, hentry, hid⟩ := mem_map.mp hmem
  have hother := (mem_filter.mp hentry).2
  exact (of_decide_eq_true hother).1 hid

theorem Present.step {nodeID : GoString} (h : Present nodeID d) (hstep : d.step cfg a = some d') :
    Present nodeID d' := by
  have hid := h.nodeID_eq
  cases a with
  | message clock msg =>
    obtain ⟨⟨effects, hout⟩, htimers⟩ := step_message hstep
    refine ⟨(MemberMgr.nodeID_handleMessage hout).trans hid, ?_, htimers ▸ h.noTimer⟩
    exact (MemberMgr.keptByCalls_selfAlive _ clock msg).handleMessage hout h.alive
  | ping inputs =>
    cases hstep
    obtain ⟨halive, hsame⟩ := h.alive.pingMembers cfg.failureTimeout inputs
      d.member.members.entries
    refine ⟨hsame.trans hid, halive, fun hmem => ?_⟩
    obtain hmem | hmem := mem_append.mp hmem
    · exact h.noTimer hmem
    · exact notMem_newSuspects d.member cfg.failureTimeout inputs (hid.symm ▸ hmem)
  | timer x now =>
    obtain ⟨hmem, rfl⟩ := step_timer hstep
    have hne : d.member.nodeID ≠ x := fun heq => h.noTimer (hid ▸ heq ▸ hmem)
    refine ⟨(MemberMgr.nodeID_suspectTimeout ..).trans hid, ?_, fun hmem => ?_⟩
    · apply h.alive.of_lookup_eq (MemberMgr.nodeID_suspectTimeout ..)
      rw [MemberMgr.lookup_suspectTimeout, if_neg hne]
    · exact h.noTimer (mem_of_mem_erase hmem)

theorem present_start (nodeID address : GoString) (incarnation : Int64) (now : Time)
    (hasSendFunc : Bool) :
    Present nodeID (start nodeID address incarnation now hasSendFunc) where
  nodeID_eq := rfl
  alive := ⟨_, dlookup_cons_eq .., rfl⟩
  noTimer := not_mem_nil

/-- The tables in which a call may invoke the callback: what it leaves behind, and for a call
    that updates several entries what it has made of the table after some of them. -/
inductive Passes (cfg : DetectorConfig) (d : Detector) : DetectorAction → MemberMgr → Prop
  | after (a : DetectorAction) (d' : Detector) (hstep : d.step cfg a = some d') :
      Passes cfg d a d'.member
  | sync (clock : Nat → Time) (msg : ClusterSyncMsg) (heard : List NodeInfo)
      (hheard : heard <+: msg.members) :
      Passes cfg d (.message clock (.clusterSync (some msg)))
        (d.member.syncMembers clock 0 heard).1
  | ping (inputs : GoString → MemberMgr.ProbeInput)
      (visited : List (Sigma fun _ : GoString => NodeInfo))
      (hvisited : visited ⊆ d.member.members.entries) :
      Passes cfg d (.ping inputs) (d.member.pingMembers cfg.failureTimeout inputs visited).1

/-- **A node never loses itself.**  In every run its own entry is there and alive, and whenever
    the ring is updated some member is alive. -/
theorem self_alive_in_every_run (cfg : DetectorConfig) (nodeID address : GoString)
    (incarnation : Int64) (now : Time) (hasSendFunc : Bool) (as : List DetectorAction)
    (d : Detector)
    (hrun : Runs (step cfg) (start nodeID address incarnation now hasSendFunc) as d) :
    (∃ info, d.member.members.lookup nodeID = some info ∧ info.state = NodeState.alive) ∧
      ∀ a m, Passes cfg d a m → m.aliveIDs ≠ [] := by
  have hpresent := hrun.invariant (fun _ _ _ h _ hstep => h.step hstep)
    (present_start nodeID address incarnation now hasSendFunc)
  have halive := hpresent.alive
  refine ⟨hpresent.nodeID_eq ▸ halive, fun a m hpasses => ?_⟩
  cases hpasses with
  | after _ d' hstep => exact (hpresent.step hstep).alive.aliveIDs_ne_nil
  | sync clock msg heard hheard =>
    have hkept := MemberMgr.keptByCalls_selfAlive d.member.nodeID clock (.clusterSync (some msg))
    exact (hkept.syncMembers (fun _ hmem => hheard.subset hmem) rfl halive).aliveIDs_ne_nil
  | ping inputs visited =>
    exact (halive.pingMembers cfg.failureTimeout inputs visited).1.aliveIDs_ne_nil

/-- A node is told that it is dead, and looks at its table much later. -/
def toldDead : List DetectorAction :=
  [.message (fun _ => 1) (.clusterSync (some
      { sender := ascii "m"
        members := [⟨ascii "n", ascii "n:1", NodeState.dead, 9, 0⟩] })),
    .ping fun _ => { now := 100, hash := 0, sent := true }]

theorem self_alive_when_told_dead :
    ∃ d, Runs (step ⟨5, 5⟩) (start (ascii "n") (ascii "n:1") 1 0 true) toldDead d ∧
      ∃ info, d.member.members.lookup (ascii "n") = some info ∧ info.state = NodeState.alive := by
  obtain ⟨d, hrun⟩ : ∃ d, Runs (step ⟨5, 5⟩) (start (ascii "n") (ascii "n:1") 1 0 true)
      toldDead d := ⟨_, runs_of_exec rfl⟩
  exact ⟨d, hrun, (self_alive_in_every_run _ _ _ _ _ _ _ _ hrun).1⟩

end Detector

end GridKV
