import GridKV.Model.Member

/-!
# What handlers and timers do to the member table

One statement for each way the table changes.  `updateNode` leaves it alone or stores the
entry it was told about (`updateNode_cases`); a handler calls `updateNode` with what its
message says about some node, and whatever such calls keep is kept by the handler
(`KeptByCalls.handleMessage`); `doPing` and the timers change an entry in its place, by a
function of that entry (`lookup_doPing`, `lookup_suspectTimeout`).
-/

namespace GridKV

open Go

namespace MemberMgr

variable {m : MemberMgr} {now : Time} {nodeID address x : GoString} {incarnation : Int64}
  {state : NodeState} {info : NodeInfo} (failureTimeout : Int) (input : ProbeInput)

/-! ### updateNode -/

/-- `updateNode` leaves the table alone: there is no address, the entry has a higher
    incarnation, or it says the same and is not older than a second. -/
def Ignored (m : MemberMgr) (now : Time) (nodeID address : GoString) (incarnation : Int64)
    (state : NodeState) : Prop :=
  address = [] ∨ ∃ info, m.members.lookup nodeID = some info ∧
    (incarnation < info.incarnation ∨
      (info.state = state ∧ info.address = address ∧ info.incarnation = incarnation) ∧
        now - info.lastActive ≤ second)

/-- The entry, if there is one, does not have a higher incarnation. -/
def NotStale (m : MemberMgr) (nodeID : GoString) (incarnation : Int64) : Prop :=
  ∀ info, m.members.lookup nodeID = some info → info.incarnation ≤ incarnation

section

variable (m now nodeID address incarnation state)

theorem updateNode_cases :
    (m.Ignored now nodeID address incarnation state ∧
      m.updateNode now nodeID address incarnation state = (m, [])) ∨
    (address ≠ [] ∧ m.NotStale nodeID incarnation ∧
      ∃ effects, (effects = [] ∨ effects = [.membershipChange]) ∧
        m.updateNode now nodeID address incarnation state =
          (m.storeNode now nodeID address incarnation state, effects)) := by
  unfold updateNode
  split
  · exact .inl ⟨.inl ‹_›, rfl⟩
  · rename_i haddress
    split
    · rename_i hlookup
      refine .inr ⟨haddress, fun info hinfo => ?_, _, .inr rfl, rfl⟩
      cases hlookup.symm.trans hinfo
    · rename_i info hlookup
      split
      · exact .inl ⟨.inr ⟨info, hlookup, .inl ‹_›⟩, rfl⟩
      · rename_i hstale
        have hnews : m.NotStale nodeID incarnation := by
          intro old hold
          cases hlookup.symm.trans hold
          exact Int64.not_lt.mp hstale
        split
        · rename_i hsame
          split
          · exact .inr ⟨haddress, hnews, _, .inl rfl, rfl⟩
          · rename_i hrecent
            exact .inl ⟨.inr ⟨info, hlookup, .inr ⟨hsame, Int.not_lt.mp hrecent⟩⟩, rfl⟩
        · exact .inr ⟨haddress, hnews, _, .inr rfl, rfl⟩

theorem lookup_storeNode (x : GoString) :
    (m.storeNode now nodeID address incarnation state).members.lookup x =
      if x = nodeID then some { nodeID, address, state, incarnation, lastActive := now }
      else m.members.lookup x := by
  by_cases hx : x = nodeID
  · rw [if_pos hx, hx]
    exact AList.lookup_insert _
  · rw [if_neg hx]
    exact AList.lookup_insert_ne hx

/-- Apart from the table `updateNode` changes nothing. -/
theorem updateNode_fst :
    ∃ members, (m.updateNode now nodeID address incarnation state).1 = { m with members } := by
  obtain ⟨-, hupdate⟩ | ⟨-, -, effects, -, hupdate⟩ :=
    updateNode_cases m now nodeID address incarnation state
  all_goals
    rw [hupdate]
    exact ⟨_, rfl⟩

@[simp] theorem nodeID_updateNode :
    (m.updateNode now nodeID address incarnation state).1.nodeID = m.nodeID := by
  obtain ⟨members, hfst⟩ := updateNode_fst m now nodeID address incarnation state
  rw [hfst]

@[simp] theorem address_updateNode :
    (m.updateNode now nodeID address incarnation state).1.address = m.address := by
  obtain ⟨members, hfst⟩ := updateNode_fst m now nodeID address incarnation state
  rw [hfst]

@[simp] theorem hasSendFunc_updateNode :
    (m.updateNode now nodeID address incarnation state).1.hasSendFunc = m.hasSendFunc := by
  obtain ⟨members, hfst⟩ := updateNode_fst m now nodeID address incarnation state
  rw [hfst]

end

/-! ### The handlers -/

/-- A call of `updateNode` that the handler of a message makes at node `own`. -/
inductive HandlerCall (own : GoString) (clock : Nat → Time) :
    MemberMsg → Time → GoString → GoString → Int64 → NodeState → Prop
  | ping (msg : PingMsg) (address : GoString) :
      HandlerCall own clock (.ping (some msg)) (clock 0) msg.sender address msg.incarnation
        NodeState.alive
  | ack (msg : AckMsg) (address : GoString) :
      HandlerCall own clock (.ack (some msg)) (clock 0) msg.sender address msg.incarnation
        NodeState.alive
  | connect (msg : ConnectMsg) :
      HandlerCall own clock (.connect (some msg)) (clock 0) msg.nodeID msg.address
        msg.incarnation NodeState.alive
  | leave (msg : LeaveMsg) :
      HandlerCall own clock (.leave (some msg)) (clock 0) msg.nodeID [] msg.incarnation
        NodeState.dead
  | indirectAck (msg : IndirectAckMsg) (address : GoString) :
      HandlerCall own clock (.indirectAck (some msg)) (clock 0) msg.target address
        msg.incarnation NodeState.alive
  | clusterSync (msg : ClusterSyncMsg) (i : Nat) (entry : NodeInfo) (hmem : entry ∈ msg.members)
      (hother : entry.nodeID ≠ own) :
      HandlerCall own clock (.clusterSync (some msg)) (clock i) entry.nodeID entry.address
        entry.incarnation entry.state

section

variable {I : MemberMgr → Prop} {clock : Nat → Time} {msg : MemberMsg}

/-- The property survives the calls that the handler of the message makes at `own`, and does
    not depend on what is remembered about indirect probes. -/
structure KeptByCalls (I : MemberMgr → Prop) (own : GoString) (clock : Nat → Time)
    (msg : MemberMsg) : Prop where
  probes : ∀ m probes, I m → I { m with indirectProbes := probes }
  calls : ∀ m now nodeID address incarnation state, m.nodeID = own →
    HandlerCall own clock msg now nodeID address incarnation state → I m →
    I (m.updateNode now nodeID address incarnation state).1

/-- Forwarding an ack changes only what is remembered about indirect probes. -/
theorem forwardIndirectAck_fst (m : MemberMgr) (ack : AckMsg) :
    ∃ probes, (m.forwardIndirectAck ack).1 = { m with indirectProbes := probes } := by
  unfold forwardIndirectAck
  split
  · exact ⟨_, rfl⟩
  · dsimp only
    split <;> exact ⟨_, rfl⟩

/-- The table as `handleAck` has updated it before it forwards the ack. -/
def acked (m : MemberMgr) (now : Time) (ack : AckMsg) : MemberMgr × List MemberEffect :=
  if m.addressOf ack.sender ≠ [] then
    m.updateNode now ack.sender (m.addressOf ack.sender) ack.incarnation NodeState.alive
  else (m, [])

theorem handleAck_eq (ack : AckMsg) :
    m.handleAck now (some ack) =
      (((m.acked now ack).1.forwardIndirectAck ack).1,
        (m.acked now ack).2 ++ ((m.acked now ack).1.forwardIndirectAck ack).2) := rfl

theorem handleAck_fst (m : MemberMgr) (now : Time) (ack : AckMsg) :
    ∃ probes, (m.handleAck now (some ack)).1 =
      { (m.acked now ack).1 with indirectProbes := probes } :=
  forwardIndirectAck_fst (m.acked now ack).1 ack

theorem KeptByCalls.syncMembers {own : GoString} {sync : ClusterSyncMsg} {i : Nat}
    {news : List NodeInfo} (hkept : KeptByCalls I own clock (.clusterSync (some sync)))
    (hnews : ∀ entry ∈ news, entry ∈ sync.members) (hid : m.nodeID = own) (h : I m) :
    I (m.syncMembers clock i news).1 := by
  induction news generalizing m i with
  | nil => exact h
  | cons entry news ih =>
    obtain ⟨hfirst, hrest⟩ := List.forall_mem_cons.mp hnews
    simp only [MemberMgr.syncMembers]
    apply ih hrest
    · split
      · rw [nodeID_updateNode]
        exact hid
      · exact hid
    · split
      · rename_i hother
        exact hkept.calls _ _ _ _ _ _ hid (.clusterSync sync i entry hfirst (hid ▸ hother.1)) h
      · exact h

theorem KeptByCalls.handlePing {ping : Option PingMsg}
    (hkept : KeptByCalls I m.nodeID clock (.ping ping)) (h : I m) :
    I (m.handlePing (clock 0) ping).1 := by
  cases ping with
  | none => exact h
  | some ping =>
    simp only [MemberMgr.handlePing]
    split
    · exact hkept.calls _ _ _ _ _ _ rfl (.ping ping _) h
    · exact h

theorem KeptByCalls.handleAck {ack : Option AckMsg}
    (hkept : KeptByCalls I m.nodeID clock (.ack ack)) (h : I m) :
    I (m.handleAck (clock 0) ack).1 := by
  cases ack with
  | none => exact h
  | some ack =>
    obtain ⟨probes, hfst⟩ := handleAck_fst m (clock 0) ack
    rw [hfst]
    apply hkept.probes
    unfold acked
    split
    · exact hkept.calls _ _ _ _ _ _ rfl (.ack ack _) h
    · exact h

theorem KeptByCalls.handleConnect {connect : Option ConnectMsg}
    (hkept : KeptByCalls I m.nodeID clock (.connect connect)) (h : I m) :
    I (m.handleConnect (clock 0) connect).1 := by
  cases connect with
  | none => exact h
  | some connect =>
    simp only [MemberMgr.handleConnect]
    split
    · exact h
    · exact hkept.calls _ _ _ _ _ _ rfl (.connect connect) h

theorem KeptByCalls.handleIndirectProbe {probe : Option IndirectProbeMsg}
    (hkept : KeptByCalls I m.nodeID clock (.indirectProbe probe)) (h : I m) :
    I (m.handleIndirectProbe probe).1 := by
  cases probe with
  | none => exact h
  | some probe =>
    simp only [MemberMgr.handleIndirectProbe]
    split
    · exact hkept.probes _ _ h
    · exact h

theorem KeptByCalls.handleIndirectAck {ack : Option IndirectAckMsg}
    (hkept : KeptByCalls I m.nodeID clock (.indirectAck ack)) (h : I m) :
    I (m.handleIndirectAck (clock 0) ack).1 := by
  cases ack with
  | none => exact h
  | some ack =>
    have hupdate := hkept.calls _ _ _ _ _ _ rfl
      (.indirectAck ack (m.addressOf ack.target)) h
    simp only [MemberMgr.handleIndirectAck]
    split
    · split
      · split <;> exact hupdate
      · split <;> exact h
    · exact h

/-- What the calls of a handler keep, the handler keeps. -/
theorem KeptByCalls.handleMessage (hkept : KeptByCalls I m.nodeID clock msg)
    {out : MemberMgr × List MemberEffect} (hout : m.handleMessage clock msg = .ok out)
    (h : I m) : I out.1 := by
  cases msg with
  | ping ping =>
    cases hout
    exact hkept.handlePing h
  | ack ack =>
    cases hout
    exact hkept.handleAck h
  | connect connect =>
    cases hout
    exact hkept.handleConnect h
  | leave leave =>
    cases hout
    cases leave with
    | none => exact h
    | some leave => exact hkept.calls _ _ _ _ _ _ rfl (.leave leave) h
  | indirectProbe probe =>
    cases hout
    exact hkept.handleIndirectProbe h
  | indirectAck ack =>
    cases hout
    exact hkept.handleIndirectAck h
  | clusterSync sync =>
    cases sync with
    | none => cases hout
    | some sync =>
      cases hout
      exact hkept.syncMembers (fun _ hmem => hmem) rfl h
  | bytes data =>
    cases hout
    exact h

theorem nodeID_handleMessage {out : MemberMgr × List MemberEffect}
    (hout : m.handleMessage clock msg = .ok out) : out.1.nodeID = m.nodeID := by
  have hkept : KeptByCalls (fun m' => m'.nodeID = m.nodeID) m.nodeID clock msg :=
    ⟨fun _ _ h => h, fun m' now nodeID address incarnation state _ _ h => by
      rw [nodeID_updateNode]
      exact h⟩
  exact hkept.handleMessage hout rfl

end

/-! ### The probes -/

/-- What a visit of `doPing` makes of the entry of a node. -/
def pinged (m : MemberMgr) (failureTimeout : Int) (input : ProbeInput) (nodeID : GoString)
    (info : NodeInfo) : NodeInfo :=
  if nodeID = m.nodeID ∨ info.state = NodeState.dead then info
  else if input.now - info.lastActive > failureTimeout then
    { info with
      state := if info.state = NodeState.suspect then NodeState.dead else NodeState.suspect }
  else if info.state = NodeState.alive ∧ m.hasSendFunc ∧ input.sent ∧ nodeID ≠ [] ∧
      ¬ input.activeNow - info.lastActive < second then
    { info with lastActive := input.activeNow }
  else info

/-- A mark that changes the state of a node. -/
theorem mark_of_ne (hlookup : m.members.lookup nodeID = some info) (hstate : info.state ≠ state) :
    (m.mark nodeID state).1 =
      { m with members := m.members.insert nodeID { info with state } } := by
  simp only [mark, hlookup, if_neg hstate]

theorem updateLastActive_of_alive (hlookup : m.members.lookup nodeID = some info)
    (hid : nodeID ≠ []) (halive : info.state = NodeState.alive)
    (hlater : ¬ now - info.lastActive < second) :
    m.updateLastActive now nodeID =
      { m with members := m.members.insert nodeID { info with lastActive := now } } := by
  simp only [updateLastActive, if_neg hid, hlookup]
  rw [if_neg (not_not.mpr halive), if_neg hlater]

theorem updateLastActive_of_not (hlookup : m.members.lookup nodeID = some info)
    (h : ¬ (info.state = NodeState.alive ∧ nodeID ≠ [] ∧ ¬ now - info.lastActive < second)) :
    m.updateLastActive now nodeID = m := by
  unfold updateLastActive
  split
  · rfl
  · rename_i hid
    simp only [hlookup]
    split
    · rfl
    · rename_i halive
      split
      · rfl
      · rename_i hlater
        exact absurd ⟨not_not.mp halive, hid, hlater⟩ h

/-- A visit stores what `pinged` says, or that is what is stored already. -/
theorem pingMember_fst (hlookup : m.members.lookup nodeID = some info) :
    (m.pingMember failureTimeout input nodeID info).1 = m ∧
        m.pinged failureTimeout input nodeID info = info ∨
      (m.pingMember failureTimeout input nodeID info).1 =
        { m with members :=
          m.members.insert nodeID (m.pinged failureTimeout input nodeID info) } := by
  unfold pingMember pinged
  by_cases hskip : nodeID = m.nodeID ∨ info.state = NodeState.dead
  · refine .inl ⟨?_, if_pos hskip⟩
    obtain hown | hdead := hskip
    · rw [if_pos hown]
    · split <;> rfl
  · obtain ⟨hown, hdead⟩ := not_or.mp hskip
    rw [if_neg hown, if_neg hdead, if_neg hskip]
    by_cases hlate : input.now - info.lastActive > failureTimeout
    · rw [if_pos hlate, if_pos hlate]
      right
      by_cases hsuspect : info.state = NodeState.suspect
      · rw [if_pos hsuspect, if_pos hsuspect]
        exact mark_of_ne hlookup hdead
      · rw [if_neg hsuspect, if_neg hsuspect]
        exact mark_of_ne hlookup hsuspect
    · rw [if_neg hlate, if_neg hlate]
      by_cases hsuspect : info.state = NodeState.suspect
      · rw [if_pos hsuspect, if_neg (by simp [hsuspect, NodeState.suspect, NodeState.alive])]
        exact .inl ⟨rfl, rfl⟩
      · rw [if_neg hsuspect]
        by_cases hsend : m.hasSendFunc = true ∧ input.sent = true
        · rw [if_pos hsend.1, if_pos hsend.2]
          split
          · rename_i hactive
            exact .inr (updateLastActive_of_alive hlookup hactive.2.2.2.1 hactive.1
              hactive.2.2.2.2)
          · rename_i hactive
            refine .inl ⟨updateLastActive_of_not hlookup fun h => hactive ?_, rfl⟩
            exact ⟨h.1, hsend.1, hsend.2, h.2⟩
        · refine .inl ⟨?_, if_neg fun hactive => hsend ⟨hactive.2.1, hactive.2.2.1⟩⟩
          split
          · rename_i hfunc
            rw [if_neg fun hsent => hsend ⟨hfunc, hsent⟩]
          · rfl

/-- The entry of one node is replaced by what `f` makes of it. -/
theorem lookup_of_replaced {m' : MemberMgr} {f : NodeInfo → NodeInfo}
    (hlookup : m.members.lookup nodeID = some info)
    (h : m' = m ∧ f info = info ∨
      m' = { m with members := m.members.insert nodeID (f info) }) (x : GoString) :
    m'.members.lookup x = if x = nodeID then some (f info) else m.members.lookup x := by
  obtain ⟨rfl, hsame⟩ | rfl := h
  · split
    · rename_i hx
      rw [hx, hlookup, hsame]
    · rfl
  · split
    · rename_i hx
      rw [hx]
      exact AList.lookup_insert _
    · rename_i hx
      exact AList.lookup_insert_ne hx

/-- Besides the entry a visit looks at the node's own ID and at `sendFunc`, which stay. -/
theorem pinged_pingMember (hlookup : m.members.lookup nodeID = some info) :
    (m.pingMember failureTimeout input nodeID info).1.pinged = m.pinged := by
  obtain ⟨hfst, -⟩ | hfst := pingMember_fst failureTimeout input hlookup
  · rw [hfst]
  · rw [hfst]
    rfl

/-- The loop over entries of the table, each visited once. -/
theorem lookup_pingMembers (inputs : GoString → ProbeInput)
    {entries : List (Sigma fun _ : GoString => NodeInfo)}
    (hentries : ∀ entry ∈ entries, m.members.lookup entry.1 = some entry.2)
    (hnodup : entries.NodupKeys) (x : GoString) :
    (m.pingMembers failureTimeout inputs entries).1.members.lookup x =
      if x ∈ entries.keys then
        (m.members.lookup x).map (m.pinged failureTimeout (inputs x) x)
      else m.members.lookup x := by
  induction entries generalizing m with
  | nil => rfl
  | cons entry entries ih =>
    obtain ⟨hfirst, hrest⟩ := List.forall_mem_cons.mp hentries
    obtain ⟨hfresh, hnodup⟩ := List.nodupKeys_cons.mp hnodup
    have hvisit := lookup_of_replaced hfirst
      (pingMember_fst failureTimeout (inputs entry.1) hfirst)
    have hentries' : ∀ e ∈ entries, (m.pingMember failureTimeout (inputs entry.1) entry.1
        entry.2).1.members.lookup e.1 = some e.2 := by
      intro e he
      have hne : e.1 ≠ entry.1 := fun heq => hfresh (heq ▸ List.mem_keys_of_mem he)
      rw [hvisit, if_neg hne]
      exact hrest e he
    simp only [pingMembers]
    rw [ih hentries' hnodup, pinged_pingMember _ _ hfirst, hvisit, List.keys_cons]
    by_cases hx : x = entry.1
    · subst hx
      rw [if_neg hfresh, if_pos rfl, if_pos List.mem_cons_self, hfirst]
      rfl
    · simp only [List.mem_cons, hx, false_or, if_false]

/-- `doPing` changes each entry in its place. -/
theorem lookup_doPing (failureTimeout : Int) (inputs : GoString → ProbeInput) :
    (m.doPing failureTimeout inputs).1.members.lookup x =
      (m.members.lookup x).map (m.pinged failureTimeout (inputs x) x) := by
  rw [doPing, lookup_pingMembers failureTimeout inputs
    (fun entry hentry => AList.mem_lookup_iff.mpr hentry) m.members.nodupKeys]
  split
  · rfl
  · rename_i hx
    rw [AList.lookup_eq_none.mpr hx]
    rfl

/-- What the timer of a suspect makes of its entry. -/
def expired (timeout : Int) (now : Time) (info : NodeInfo) : NodeInfo :=
  if info.state = NodeState.suspect ∧ now - info.lastActive > timeout then
    { info with state := NodeState.dead }
  else info

/-- The timer of a suspect changes its entry in its place. -/
theorem lookup_suspectTimeout (timeout : Int) :
    (m.suspectTimeout timeout now nodeID).1.members.lookup x =
      if x = nodeID then (m.members.lookup x).map (expired timeout now)
      else m.members.lookup x := by
  unfold suspectTimeout
  split
  · rename_i hlookup
    split
    · rename_i hx
      rw [hx, hlookup]
      rfl
    · rfl
  · rename_i info hlookup
    have hreplaced : (if info.state = NodeState.suspect ∧ now - info.lastActive > timeout then
          m.markDead nodeID else (m, [])).1 = m ∧ expired timeout now info = info ∨
        (if info.state = NodeState.suspect ∧ now - info.lastActive > timeout then
          m.markDead nodeID else (m, [])).1 =
            { m with members := m.members.insert nodeID (expired timeout now info) } := by
      unfold expired
      split
      · rename_i hexpired
        refine .inr (mark_of_ne hlookup ?_)
        rw [hexpired.1]
        decide
      · exact .inl ⟨rfl, rfl⟩
    rw [lookup_of_replaced hlookup hreplaced]
    split
    · rename_i hx
      rw [hx, hlookup]
      rfl
    · rfl

theorem nodeID_suspectTimeout (m : MemberMgr) (timeout : Int) (now : Time) (nodeID : GoString) :
    (m.suspectTimeout timeout now nodeID).1.nodeID = m.nodeID := by
  unfold suspectTimeout markDead mark
  repeat' split
  all_goals rfl

end MemberMgr

end GridKV
